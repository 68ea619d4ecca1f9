import Multiequation.Proofs.Partition.Updates
import Mathlib

/-!
# Updates commute

Whether a list of updates can be done, and what it leaves, is told by the list up to the order of its
members. So a permuted list fails exactly when the list does, although it may be another update that
fails, and otherwise leaves the same classes, although other classes may have survived: they have the
same variables, and their multiterms differ in the order of variables only. Counting the occurrences
then gives them the same pending counts.
-/

namespace Multiequation.Partition

open Update

variable {U U' : List Update} {p q p' q' : Partition} {id id' : ClassId} {u v : Var} {n : ℕ}

/-! ### Permuted updates -/

theorem Update.Refuted.perm (h : U.Perm U') : Refuted n U ↔ Refuted n U' :=
  ⟨fun hr => hr.mono h.subset, fun hr => hr.mono h.symm.subset⟩

theorem Update.Identified.perm (h : U.Perm U') : Identified U u v ↔ Identified U' u v :=
  ⟨fun hj => hj.mono h.subset, fun hj => hj.mono h.symm.subset⟩

/-- Classes with the same variables get the same multiterms. -/
theorem termsOf_perm (h : U.Perm U')
    (hown : ∀ v, p.owner? v = some id ↔ p'.owner? v = some id') :
    (termsOf U p id).Perm (termsOf U' p' id') := by
  rw [termsOf_congr fun v _ _ => hown v]
  exact h.filterMap _

/-! ### Corresponding classes -/

/-- The class `id` of `p` and the class `id'` of `p'` have the same variables, and their multiterms are
equal but for the order of variables in the cells at each depth. -/
structure Corresponds (p p' : Partition) (id id' : ClassId) : Prop where
  owner : ∀ v, p.owner? v = some id ↔ p'.owner? v = some id'
  members : (p.classAt id).members.toList.Perm (p'.classAt id').members.toList
  term : Cell.Reordered ⟨.empty, (p.classAt id).term⟩ ⟨.empty, (p'.classAt id').term⟩

/-- The live classes of both partitions correspond to each other. -/
structure Agree (p p' : Partition) : Prop where
  varCount : p.varCount = p'.varCount
  left : ∀ id ∈ p.liveClasses, ∃ id' ∈ p'.liveClasses, Corresponds p p' id id'
  right : ∀ id' ∈ p'.liveClasses, ∃ id ∈ p.liveClasses, Corresponds p p' id id'

/-- A class whose variables one list of updates identifies corresponds to the class whose variables the
permuted list identifies. -/
theorem Holds.corresponds (h : Holds U p) (h' : Holds U' p') (hperm : U.Perm U')
    (hv : p.owner? v = some id) (hv' : p'.owner? v = some id') : Corresponds p p' id id' := by
  have hlive := h.wellFormed.owner_mem_liveClasses hv
  have hlive' := h'.wellFormed.owner_mem_liveClasses hv'
  have hown : ∀ u, p.owner? u = some id ↔ p'.owner? u = some id' := by
    intro u
    rw [h.owner?_eq_some_iff hv, h'.owner?_eq_some_iff hv', Update.Identified.perm hperm]
  refine ⟨hown, ?_, ?_⟩
  · rw [List.perm_ext_iff_of_nodup (h.wellFormed.members_nodup id) (h'.wellFormed.members_nodup id')]
    intro u
    rw [h.wellFormed.mem_members_of_live hlive, h'.wellFormed.mem_members_of_live hlive', hown]
  · have hgathers := (h.gathers id hlive).perm ((termsOf_perm hperm hown).map _)
    exact hgathers.reordered (h'.gathers id' hlive')

/-- What permuted updates leave agrees. -/
theorem Holds.agree (h : Holds U p) (h' : Holds U' p') (hperm : U.Perm U')
    (hcount : p.varCount = p'.varCount) : Agree p p' := by
  refine ⟨hcount, fun id hid => ?_, fun id' hid' => ?_⟩
  · obtain ⟨v, -, hv⟩ := h.wellFormed.exists_owner hid
    obtain ⟨id', hv'⟩ := owner?_isSome_iff.2 (hcount ▸ owner?_isSome_iff.1 ⟨id, hv⟩)
    exact ⟨id', h'.wellFormed.owner_mem_liveClasses hv', h.corresponds h' hperm hv hv'⟩
  · obtain ⟨v, -, hv'⟩ := h'.wellFormed.exists_owner hid'
    obtain ⟨id, hv⟩ := owner?_isSome_iff.2 (hcount ▸ owner?_isSome_iff.1 ⟨id', hv'⟩)
    exact ⟨id, h.wellFormed.owner_mem_liveClasses hv, h.corresponds h' hperm hv hv'⟩

/-! ### Pending counts -/

/-- Counting succeeds exactly when all variables that occur have been created. -/
theorem Linked.exists_countOccurrences_iff (h : p.Linked)
    (harithmetic : p.arithmetic = .unbounded) :
    (∃ q, countOccurrences p = .ok ⟨⟩ q) ↔ ∀ v ∈ p.occurrences, v.index < p.varCount := by
  constructor
  · rintro ⟨q, hq⟩
    exact ((h.countOccurrences_ends harithmetic).of_ok hq).2.2
  · intro hlt
    obtain ⟨_, q, hq, -⟩ := ((h.countOccurrences_ends harithmetic).mono (fun _ _ hq => hq) (by
      rintro _ _ ⟨v, hv, hle⟩
      exact absurd (hlt v hv) (not_lt.2 hle))).exists_ok
    exact ⟨q, hq⟩

/-- Corresponding classes have the same number of occurrences of their variables. -/
theorem Corresponds.occurrencesOf_eq (h : Corresponds p p' id id') {vs ws : List Var}
    (hperm : vs.Perm ws) : p.occurrencesOf id vs = p'.occurrencesOf id' ws := by
  rw [occurrencesOf_perm hperm, occurrencesOf, occurrencesOf]
  exact List.countP_congr fun v _ => by simp [h.owner]

theorem Holds.occurrences_perm (h : Holds U p) (h' : Holds U' p') (hperm : U.Perm U') :
    p.occurrences.Perm p'.occurrences :=
  h.occurrences.trans ((hperm.flatMap_right _).trans h'.occurrences.symm)

/-- Both partitions can be counted or neither can. -/
theorem Holds.exists_countOccurrences_iff (h : Holds U p) (h' : Holds U' p') (hperm : U.Perm U')
    (hcount : p.varCount = p'.varCount) : (∃ q, countOccurrences p = .ok ⟨⟩ q) ↔
      ∃ q', countOccurrences p' = .ok ⟨⟩ q' := by
  rw [h.wellFormed.linked.exists_countOccurrences_iff h.arithmetic,
    h'.wellFormed.linked.exists_countOccurrences_iff h'.arithmetic, hcount]
  simp only [(h.occurrences_perm h' hperm).mem_iff]

/-- Counted partitions agree as before, and corresponding classes have the same pending count. -/
theorem Holds.agree_of_counted (h : Holds U p) (h' : Holds U' p') (hperm : U.Perm U')
    (hcount : p.varCount = p'.varCount) (hq : countOccurrences p = .ok ⟨⟩ q)
    (hq' : countOccurrences p' = .ok ⟨⟩ q') : Agree q q' ∧ ∀ id ∈ q.liveClasses,
      ∀ id' ∈ q'.liveClasses, Corresponds q q' id id' →
        (q.classAt id).pending = (q'.classAt id').pending := by
  obtain ⟨⟨g, hg⟩, hpending, -⟩ :=
    (h.wellFormed.linked.countOccurrences_ends h.arithmetic).of_ok hq
  obtain ⟨⟨g', hg'⟩, hpending', -⟩ :=
    (h'.wellFormed.linked.countOccurrences_ends h'.arithmetic).of_ok hq'
  have hholds := h.of_repriced hg
  have hholds' := h'.of_repriced hg'
  refine ⟨hholds.agree hholds' hperm ?_, fun id hid id' hid' hcorr => ?_⟩
  · rw [hg.varCount, hg'.varCount, hcount]
  · rw [hpending id hid, hpending' id' hid']
    exact hcorr.occurrencesOf_eq (hholds.occurrences_perm hholds' hperm)

/-! ### Fresh variables -/

/-- The partition in which each of `n` variables forms a class alone. -/
def fresh (n : ℕ) : Partition :=
  (fun p => p.freshVar.2)^[n] (start .unbounded)

theorem fresh_succ (n : ℕ) : fresh (n + 1) = (fresh n).freshVar.2 :=
  Function.iterate_succ_apply' _ n _

theorem varCount_fresh (n : ℕ) : (fresh n).varCount = n := by
  induction n with
  | zero => rfl
  | succ n ih =>
    rw [fresh_succ]
    exact (Array.size_push _).trans (congrArg (· + 1) ih)

theorem holds_fresh (n : ℕ) : Holds [] (fresh n) := by
  induction n with
  | zero => exact .start
  | succ n ih =>
    rw [fresh_succ]
    exact ih.of_extended ih.wellFormed.linked.extended_freshVar

/-- Updates of fresh variables are held at the end, or they are refuted. -/
theorem runAll_fresh_ends (n : ℕ) (U : List Update) : Ends (runAll U) (fresh n)
    (fun _ p => Holds U p ∧ p.varCount = n) fun _ _ => Refuted n U := by
  have hends := (holds_fresh n).runAll_ends U
  rwa [varCount_fresh] at hends

/-- Updates fail exactly when they are refuted. -/
theorem runAll_fresh_fails_iff : (∃ e p, runAll U (fresh n) = .error e p) ↔ Refuted n U := by
  have hends := runAll_fresh_ends n U
  constructor
  · rintro ⟨e, p, herror⟩
    exact hends.of_error herror
  · intro hrefuted
    cases hrun : runAll U (fresh n) with
    | error e p => exact ⟨e, p, rfl⟩
    | ok _ p =>
      obtain ⟨hholds, hcount⟩ := hends.of_ok hrun
      exact absurd (hcount ▸ hrefuted) hholds.not_refuted

/-! ### Commutation -/

/-- A permuted list of updates fails exactly when the list does. Otherwise both leave the same classes
with the same multiterms but for the order of variables, and if the occurrences are counted, with the
same pending counts. -/
theorem updates_commute (n : ℕ) (hperm : U.Perm U') :
    ((∃ e p, runAll U (fresh n) = .error e p) ↔ ∃ e p', runAll U' (fresh n) = .error e p') ∧
    ∀ p p', runAll U (fresh n) = .ok ⟨⟩ p → runAll U' (fresh n) = .ok ⟨⟩ p' → Agree p p' ∧
      ((∃ q, countOccurrences p = .ok ⟨⟩ q) ↔ ∃ q', countOccurrences p' = .ok ⟨⟩ q') ∧
      ∀ q q', countOccurrences p = .ok ⟨⟩ q → countOccurrences p' = .ok ⟨⟩ q' → Agree q q' ∧
        ∀ id ∈ q.liveClasses, ∀ id' ∈ q'.liveClasses, Corresponds q q' id id' →
          (q.classAt id).pending = (q'.classAt id').pending := by
  refine ⟨?_, fun p p' hp hp' => ?_⟩
  · rw [runAll_fresh_fails_iff, runAll_fresh_fails_iff, Refuted.perm hperm]
  · obtain ⟨h, hn⟩ := (runAll_fresh_ends n U).of_ok hp
    obtain ⟨h', hn'⟩ := (runAll_fresh_ends n U').of_ok hp'
    have hcount := hn.trans hn'.symm
    exact ⟨h.agree h' hperm hcount, h.exists_countOccurrences_iff h' hperm hcount,
      fun q q' => h.agree_of_counted h' hperm hcount⟩

/-- The order of updates decides which class survives and how the variables of a place are listed, and
nothing else: of four updates done backwards the last merge has another survivor. -/
theorem updates_commute_of_other_survivor : ∃ U U' p p', List.Perm U U' ∧
    runAll U (fresh 3) = .ok ⟨⟩ p ∧ runAll U' (fresh 3) = .ok ⟨⟩ p' ∧
    p.owner? ⟨1⟩ = some ⟨0⟩ ∧ p'.owner? ⟨1⟩ = some ⟨2⟩ ∧
    (p.classAt ⟨0⟩).term ≠ (p'.classAt ⟨2⟩).term ∧ Agree p p' := by
  let f : Symbol := ⟨"f", by decide⟩
  let U : List Update := [.merge ⟨0⟩ ⟨1⟩, .commit ⟨0⟩ ⟨f, [.var ⟨1⟩]⟩, .commit ⟨2⟩ ⟨f, [.var ⟨2⟩]⟩,
    .merge ⟨2⟩ ⟨1⟩]
  let p : Partition := ⟨#[⟨0⟩, ⟨0⟩, ⟨2⟩], #[
    .live ⟨⟨[⟨0⟩, ⟨1⟩, ⟨2⟩]⟩, 3, 0, some ⟨f, [⟨⟨[⟨1⟩, ⟨2⟩]⟩, none⟩]⟩⟩, .absorbed ⟨0⟩, .absorbed ⟨0⟩],
    .unbounded⟩
  let p' : Partition := ⟨#[⟨0⟩, ⟨2⟩, ⟨2⟩], #[.absorbed ⟨2⟩, .absorbed ⟨2⟩,
    .live ⟨⟨[⟨2⟩, ⟨1⟩, ⟨0⟩]⟩, 3, 0, some ⟨f, [⟨⟨[⟨2⟩, ⟨1⟩]⟩, none⟩]⟩⟩], .unbounded⟩
  have hp : runAll U (fresh 3) = .ok ⟨⟩ p := by
    iterate 4 refine (runAll_cons_of_ok (by cbv)).trans ?_
    rfl
  have hp' : runAll U.reverse (fresh 3) = .ok ⟨⟩ p' := by
    iterate 4 refine (runAll_cons_of_ok (by cbv)).trans ?_
    rfl
  have hperm : U.Perm U.reverse := U.reverse_perm.symm
  have hagree := ((updates_commute 3 hperm).2 p p' hp hp').1
  exact ⟨U, U.reverse, p, p', hperm, hp, hp', by decide, by decide, by decide, hagree⟩

end Multiequation.Partition
