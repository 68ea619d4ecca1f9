import Multiequation.Proofs.Partition.Updates
import Multiequation.Proofs.System.Sides

/-!
# What a partition records of the sides

The sides of a system are added to a partition one after the other. At any time its classes are those
of the equivalence that the aliases generate, the multiterm of a class gathers the multiterms of the
sides that are anchored in the class, and the occurrences are those strictly inside the sides. This is
what is left by the updates that the sides stand for, where an alias is a merge with its anchor and an
application is a commit to it. So creating a hidden variable, committing an application and merging the
class of an alias preserve it, and a commit or a merge fails only at two sides that disagree.
-/

namespace Multiequation

open Multiequation.Partition Partition.Update

variable {number : String → Var} {L : List AnchoredSide} {u v : Var}

namespace AnchoredSide

/-! ### Sides as updates -/

/-- How a side is added to the class of its anchor. -/
def update (number : String → Var) : AnchoredSide → Update
  | ⟨u, .var x⟩ => .merge u (number x)
  | ⟨u, .app f args⟩ => .commit u ⟨f, args.map (Cell.ofTerm number)⟩

variable {s : AnchoredSide} {t : Multiterm}

theorem update_eq_merge_iff : s.update number = .merge u v ↔
    ∃ x, s = ⟨u, .var x⟩ ∧ v = number x := by
  obtain ⟨w, y | ⟨f, args⟩⟩ := s
  · simp [update, eq_comm, and_assoc]
  · simp [update]

theorem update_eq_commit_iff : s.update number = .commit u t ↔
    s.anchor = u ∧ (Cell.ofTerm number s.term).term = some t := by
  obtain ⟨w, y | ⟨f, args⟩⟩ := s
  · simp [update, Cell.ofTerm, Cell.var]
  · simp [update, Cell.ofTerm_app, Cell.nested]

theorem merge_mem_updates : .merge u v ∈ L.map (update number) ↔ Alias number L u v := by
  simp only [List.mem_map, update_eq_merge_iff, Alias]
  constructor
  · rintro ⟨s, hs, x, rfl, rfl⟩
    exact ⟨x, hs, rfl⟩
  · rintro ⟨x, hx, rfl⟩
    exact ⟨_, hx, x, rfl, rfl⟩

/-- The aliases are the pairs that are merged. -/
theorem identified_updates : Identified (L.map (update number)) = Aliased number L :=
  congrArg Relation.EqvGen (funext fun _ => funext fun _ => propext merge_mem_updates)

theorem commit_mem_updates : .commit u t ∈ L.map (update number) ↔
    ∃ s ∈ L, s.anchor = u ∧ (Cell.ofTerm number s.term).term = some t := by
  simp only [List.mem_map, update_eq_commit_iff]

/-- Sides disagree where their updates conflict. -/
theorem conflicting_updates : Conflicting (L.map (update number)) ↔ Disagreeing number L := by
  simp only [Conflicting, identified_updates, commit_mem_updates]
  constructor
  · rintro ⟨_, _, s, t, ⟨a, ha, rfl, hs⟩, ⟨b, hb, rfl, ht⟩, hab, hst⟩
    rw [← Cell.ofTerm_eq_nested hs, ← Cell.ofTerm_eq_nested ht, Cell.conflict_ofTerm] at hst
    exact ⟨a, ha, b, hb, hab, hst⟩
  · rintro ⟨a, ha, b, hb, hab, hdisagree⟩
    have ⟨path, f, g, ss, ts, hss, hts, _⟩ := hdisagree
    obtain ⟨s, hs⟩ := Cell.exists_multiterm hss number
    obtain ⟨t, ht⟩ := Cell.exists_multiterm hts number
    refine ⟨_, _, s, t, ⟨a, ha, rfl, hs⟩, ⟨b, hb, rfl, ht⟩, hab, ?_⟩
    rwa [← Cell.ofTerm_eq_nested hs, ← Cell.ofTerm_eq_nested ht, Cell.conflict_ofTerm]

/-- The occurrences strictly inside the sides are those in the committed multiterms. -/
theorem vars_updates : (L.map (update number)).flatMap Update.vars =
    (L.flatMap fun s => s.term.innerVars).map number := by
  rw [List.flatMap_map, List.map_flatMap]
  refine List.flatMap_congr fun s _ => ?_
  obtain ⟨w, y | ⟨f, args⟩⟩ := s
  · rfl
  · exact Cell.varsOfArgs_ofTerm args

end AnchoredSide

namespace Partition

open AnchoredSide

variable {p q : Partition} {id root : ClassId} {anchor : Var} {x : String} {f : Symbol}
  {args : List Term} {m : Option Multiterm}

/-- The multiterms of the sides whose anchors the class owns. -/
def multitermsOf (number : String → Var) (L : List AnchoredSide) (p : Partition) (id : ClassId) :
    List Multiterm :=
  (L.filter fun s => p.owner? s.anchor = some id).filterMap fun s =>
    (Cell.ofTerm number s.term).term

theorem termsOf_updates :
    termsOf (L.map (AnchoredSide.update number)) p id = multitermsOf number L p id := by
  rw [termsOf, multitermsOf, List.filterMap_map, List.filterMap_filter]
  refine List.filterMap_congr fun s _ => ?_
  obtain ⟨w, y | ⟨f, args⟩⟩ := s
  · simp [AnchoredSide.update, Cell.ofTerm, Cell.var]
  · simp [AnchoredSide.update, Cell.ofTerm_app, Cell.nested]

/-! ### Recorded sides -/

/-- The partition holds what the sides say and nothing else. -/
structure Records (number : String → Var) (L : List AnchoredSide) (p : Partition) : Prop where
  proper : p.Proper p.varCount
  owned : ∀ s ∈ L, ∃ id, p.owner? s.anchor = some id
  owner_of_alias : ∀ {u v}, Alias number L u v →
    ∃ id, p.owner? u = some id ∧ p.owner? v = some id
  aliased_of_owner : ∀ {u v id}, p.owner? u = some id → p.owner? v = some id →
    Aliased number L u v
  gathers : ∀ id ∈ p.liveClasses,
    Cell.Gathers ((multitermsOf number L p id).map .nested) ⟨.empty, (p.classAt id).term⟩
  occurrences : p.occurrences.Perm ((L.flatMap fun s => s.term.innerVars).map number)

namespace Records

/-- Sides are recorded as updates are held. -/
theorem holds (h : Records number L p) : Holds (L.map (AnchoredSide.update number)) p where
  wellFormed := h.proper.toWellFormed
  owned := by
    rw [List.forall_mem_map]
    rintro ⟨u, y | ⟨f, args⟩⟩ hs
    · obtain ⟨id, hu, hv⟩ := h.owner_of_alias ⟨y, hs, rfl⟩
      simp [AnchoredSide.update, targets, hu, hv]
    · simpa [AnchoredSide.update, targets] using h.owned _ hs
  owner_of_merge := by
    intro u v huv
    obtain ⟨id, hu, hv⟩ := h.owner_of_alias (merge_mem_updates.1 huv)
    rw [hu, hv]
  identified_of_owner := by
    rw [identified_updates]
    exact h.aliased_of_owner
  gathers id hid := by
    rw [termsOf_updates]
    exact h.gathers id hid
  occurrences := by
    rw [vars_updates]
    exact h.occurrences
  arithmetic := h.proper.arithmetic

theorem of_holds (hproper : p.Proper p.varCount)
    (h : Holds (L.map (AnchoredSide.update number)) p) : Records number L p where
  proper := hproper
  owned s hs := by
    refine h.owned _ (List.mem_map_of_mem hs) s.anchor ?_
    obtain ⟨u, y | ⟨f, args⟩⟩ := s <;> simp [AnchoredSide.update, targets]
  owner_of_alias huv := by
    have hmerge := merge_mem_updates.2 huv
    obtain ⟨id, hu⟩ := h.owned _ hmerge _ List.mem_cons_self
    exact ⟨id, hu, (h.owner_of_merge hmerge).symm.trans hu⟩
  aliased_of_owner := by
    rw [← identified_updates]
    exact h.identified_of_owner
  gathers id hid := by
    rw [← termsOf_updates]
    exact h.gathers id hid
  occurrences := by
    rw [← vars_updates]
    exact h.occurrences

/-- The classes are those of the aliases. -/
theorem owner?_eq_some_iff (h : Records number L p) (hu : p.owner? u = some id) :
    p.owner? v = some id ↔ Aliased number L u v := by
  rw [h.holds.owner?_eq_some_iff hu, identified_updates]

/-- Sides that are recorded do not disagree. -/
theorem not_disagreeing (h : Records number L p) : ¬ Disagreeing number L :=
  mt conflicting_updates.2 h.holds.not_conflicting

/-! ### What preserves the records -/

theorem start : Records number [] (Partition.start .unbounded) :=
  of_holds proper_start .start

/-- Counting occurrences adds nothing. -/
theorem of_repriced {g : ClassId → ℕ} (h : Records number L p) (hq : Repriced p q g) :
    Records number L q :=
  of_holds (hq.varCount ▸ hq.proper h.proper) (h.holds.of_repriced hq)

/-- Creating a variable adds nothing. -/
theorem of_extended (h : Records number L p) (hq : Extended p q) : Records number L q :=
  of_holds (h.proper.of_extended hq) (h.holds.of_extended hq)

/-- A committed application is added. -/
theorem of_commit (h : Records number L p) (hroot : p.owner? anchor = some root)
    (hargs : ∀ x ∈ args.flatMap Term.vars, (number x).index < p.varCount)
    (hm : Multiterm.mergeOption (p.classAt root).term
      (some ⟨f, args.map (Cell.ofTerm number)⟩) = .ok m)
    (hq : Updated p q root { p.classAt root with term := m }) :
    Records number (L ++ [⟨anchor, .app f args⟩]) q := by
  refine of_holds ?_ (by simpa [AnchoredSide.update] using h.holds.of_commit hroot hm hq)
  rw [hq.varCount]
  refine h.proper.of_commit hq (h.proper.owner_live hroot).2 hm (Cell.filled_app f args) ?_
  rw [Cell.vars_app, Term.vars_app, List.forall_mem_map]
  exact hargs

/-- An alias of which the class is that of the anchor already changes nothing. -/
theorem of_similar (h : Records number L p) (hroot : p.owner? anchor = some root)
    (hx : p.owner? (number x) = some root) (hq : Similar p q) :
    Records number (L ++ [⟨anchor, .var x⟩]) q := by
  refine of_holds ?_ (by simpa [AnchoredSide.update] using h.holds.of_similar hroot hx hq)
  rw [hq.varCount]
  exact h.proper.of_similar hq

/-- A merge adds the alias. -/
theorem of_unites (h : Records number L p) (hq : Unites p q anchor (number x) id) :
    Records number (L ++ [⟨anchor, .var x⟩]) q := by
  refine of_holds ?_ (by simpa [AnchoredSide.update] using h.holds.of_unites hq)
  obtain ⟨plan, m, hplan, -, -, hm, hq⟩ := hq
  rw [hq.varCount]
  exact h.proper.of_merged hplan hm hq

/-! ### What makes a step fail -/

/-- A commit fails at a side that disagrees with the new one only. -/
theorem disagreeing_of_commit (h : Records number L p) (hroot : p.owner? anchor = some root)
    {c : Clash} (hm : Multiterm.mergeOption (p.classAt root).term
      (some ⟨f, args.map (Cell.ofTerm number)⟩) = .error c) :
    Disagreeing number (L ++ [⟨anchor, .app f args⟩]) := by
  rw [← conflicting_updates, List.map_append]
  exact h.holds.conflicting_of_commit hroot hm

/-- A merge fails at two sides of the two classes only that disagree. -/
theorem disagreeing_of_joins (h : Records number L p) {plan : Absorption}
    (hjoins : plan.Joins p anchor (number x)) {c : Clash}
    (hm : Multiterm.mergeOption (p.classAt plan.survivor).term (p.classAt plan.absorbed).term =
      .error c) : Disagreeing number (L ++ [⟨anchor, .var x⟩]) := by
  rw [← conflicting_updates, List.map_append]
  exact h.holds.conflicting_of_joins hjoins hm

end Records

end Partition

end Multiequation
