import Multiequation.Proofs.Lockstep
import Multiequation.Proofs.Partition.Histories

/-!
# Counting in words

A partition that counts in words does what one that counts without a bound does, as long as there is room
in a word. The arithmetic matters in two places: where an occurrence is counted, and where a class takes
over the count of another one. Everything else is the same in both.
-/

namespace Multiequation.Partition

/-- The same partition, counting in words. -/
def inWords (p : Partition) : Partition := { p with arithmetic := .word }

/-- Work on the partition ends alike when the partition counts in words. -/
abbrev SameInWords {α : Type} (x : PartitionM α) (p : Partition) : Prop :=
  Alike (fun q q' => q' = q.inWords) (fun _ => True) (x p) (x p.inWords)

variable {p q : Partition} {id a b : ClassId} {v : Var} {vs : List Var} {f g : Class → Class}

theorem SameInWords.of_ok {α : Type} {x : PartitionM α} {y : α} (h : SameInWords x p)
    (hok : x p = .ok y q) : x p.inWords = .ok y q.inWords := by
  unfold SameInWords at h
  rw [hok] at h
  generalize x p.inWords = r at h
  cases h with
  | ok _ hq => rw [hq]

/-! ### What does not depend on the arithmetic -/

theorem resolve_inWords (p : Partition) : p.inWords.resolve = p.resolve := resolve_congr rfl rfl

theorem classAt_inWords (p : Partition) : p.inWords.classAt = p.classAt := by
  funext id
  rw [classAt, classAt, resolve_inWords]
  rfl

theorem occurrences_inWords (p : Partition) : p.inWords.occurrences = p.occurrences := by
  rw [occurrences, occurrences, classAt_inWords]
  rfl

theorem debt_inWords (p : Partition) : p.inWords.debt = p.debt := by
  rw [debt, debt, classAt_inWords]
  rfl

theorem absorption?_inWords (p : Partition) (a b : ClassId) :
    p.inWords.absorption? a b = p.absorption? a b := by
  rw [absorption?, absorption?, resolve_inWords, classAt_inWords]

theorem compressWithin_inWords (root : ClassId) (n : ℕ) (id : ClassId) (p : Partition) :
    compressWithin root n id p.inWords = (compressWithin root n id p).inWords := by
  induction n generalizing id p with
  | zero => rfl
  | succ n ih =>
    rw [compressWithin, compressWithin, show p.inWords.forward? id = p.forward? id from rfl]
    cases p.forward? id with
    | none => rfl
    | some next =>
      dsimp only
      split_ifs
      · rfl
      · exact ih next (p.redirect id root)

theorem find_inWords (p : Partition) (id : ClassId) :
    p.inWords.find id = ((p.find id).1, (p.find id).2.inWords) := by
  simp only [find, resolve_inWords, ← compressWithin_inWords]
  rfl

theorem update_inWords (p : Partition) (id : ClassId) (f : Class → Class) :
    p.inWords.update id f = (p.update id f).inWords := by
  simp only [update, find_inWords]
  rfl

theorem foldl_setPending_inWords (ids : List ClassId) (p : Partition) :
    ids.foldl (fun p id => p.setPending id 0) p.inWords =
      (ids.foldl (fun p id => p.setPending id 0) p).inWords := by
  induction ids generalizing p with
  | nil => rfl
  | cons id ids ih =>
    rw [List.foldl_cons, List.foldl_cons, ← ih, setPending, setPending, update_inWords]

theorem findRoot_inWords (p : Partition) (id : ClassId) :
    SameInWords (modifyGet (·.find id)) p :=
  .modifyGet (by rw [find_inWords]) trivial (by rw [find_inWords])

theorem findOwner_inWords (p : Partition) (v : Var) : SameInWords (findOwner v) p := by
  refine .get_bind ?_
  rw [show p.inWords.owners = p.owners from rfl]
  cases p.owners[v.index]? with
  | none => exact .error rfl
  | some id =>
    refine .bind (p.findRoot_inWords id) ?_
    rintro root q _ - rfl
    exact .ok trivial rfl

theorem payOff_inWords (p : Partition) (id : ClassId) : SameInWords (payOff id) p := by
  refine .bind (p.findRoot_inWords id) ?_
  rintro root q _ - rfl
  refine .get_bind ?_
  rw [classAt_inWords]
  cases (q.classAt root).pending with
  | zero => exact .error rfl
  | succ n => exact .ok trivial (q.update_inWords root _)

theorem takeTerm_inWords (p : Partition) (id : ClassId) :
    SameInWords (modifyGet (·.takeTerm id)) p :=
  .modifyGet (by rw [takeTerm, takeTerm, classAt_inWords]) trivial
    (p.update_inWords id fun cls => { cls with term := none })

theorem commit_inWords (p : Partition) (id : ClassId) (t : Multiterm) :
    SameInWords (commit id t) p := by
  refine .bind (p.takeTerm_inWords id) ?_
  rintro old q _ - rfl
  cases Multiterm.mergeOption old (some t) with
  | error c => exact .error rfl
  | ok m => exact .ok trivial (q.update_inWords id _)

/-! ### Sums that have room -/

/-- A change of the contents of a class matters at what it contains only. -/
theorem updateLive_congr (h : ∀ cls ∈ p.contents? id, f cls = g cls) :
    p.updateLive id f = p.updateLive id g := by
  rw [updateLive, updateLive]
  congr 1
  refine Array.ext_getElem? fun i => ?_
  rw [Array.getElem?_modify, Array.getElem?_modify]
  split_ifs with hi
  · cases hrecord : p.records[i]? with
    | none => rfl
    | some record =>
      have hcontents : p.contents? id = some record.contents := by
        rw [contents?, hi, hrecord, Option.map_some]
      rw [Option.map_some, Option.map_some, h _ hcontents]
  · rfl

theorem update_congr (h : p.Linked) (hfg : f (p.classAt id) = g (p.classAt id)) :
    p.update id f = p.update id g := by
  refine updateLive_congr fun cls hcls => ?_
  rw [(h.relinked_compressWithin _ id).contents] at hcls
  have hclass : p.classAt id = cls := by rw [classAt, Option.mem_def.1 hcls, Option.getD_some]
  rw [← hclass, hfg]

/-- An occurrence is counted alike if there is room for it. -/
theorem countOccurrence_inWords (h : p.Linked)
    (hroom : ∀ id, p.owner? v = some id → (p.classAt id).pending + 1 < UInt64.size) :
    SameInWords (countOccurrence v) p := by
  refine .bind_of_ok (p.findOwner_inWords v) ?_
  rintro owner q _ hok - rfl
  obtain ⟨howner, hq⟩ := h.findOwner_ok hok
  have hadd : q.inWords.arithmetic.add (q.classAt owner).pending 1 =
      q.arithmetic.add (q.classAt owner).pending 1 := by
    rw [hq.classAt, Arithmetic.add_of_lt _ (hroom owner howner),
      Arithmetic.add_of_lt _ (hroom owner howner)]
  refine .modify trivial ?_
  rw [update_inWords]
  exact congrArg inWords (update_congr hq.linked (by rw [hadd]))

/-- There is room for an occurrence that has not been counted if there is room for all of them. -/
theorem Counting.room (h : p.Counting (v :: vs) q) (hp : p.Linked) (hv : q.owner? v = some id) :
    (q.classAt id).pending + 1 ≤ p.occurrences.length := by
  obtain ⟨counted, hall, -, g, hg, hcount⟩ := h
  rw [hg.owner] at hv
  obtain ⟨i, hi, rfl⟩ := owner?_eq_some_iff.1 hv
  have hlt := hp.owners_lt hi
  have hle : p.occurrencesOf (p.resolve i) counted ≤ counted.length := List.countP_le_length
  rw [hg.classAt, hp.resolve_resolve, hcount _ (hp.resolve_mem_liveClasses hlt), ← hall,
    List.length_append, List.length_cons]
  exact Nat.add_le_add hle (Nat.le_add_left 1 vs.length)

/-- All occurrences are counted alike if there is room for their number. -/
theorem countOccurrences_inWords (h : p.Linked) (harithmetic : p.arithmetic = .unbounded)
    (hroom : p.occurrences.length < UInt64.size) : SameInWords countOccurrences p := by
  refine .get_bind ?_
  rw [occurrences_inWords]
  change Alike _ _ (p.occurrences.forM countOccurrence
      (p.liveClasses.foldl (fun p id => p.setPending id 0) p))
    (p.occurrences.forM countOccurrence
      (p.liveClasses.foldl (fun p id => p.setPending id 0) p.inWords))
  refine .forM_of_ends p.Counting (fun v vs q hq => ?_) ?_ p.occurrences h.counting
    (foldl_setPending_inWords _ p)
  · exact (hq.countOccurrence_ends h harithmetic).mono (fun _ _ h => h) fun _ _ _ => trivial
  · rintro v vs q _ hq rfl
    obtain ⟨-, -, -, g, hg, -⟩ := id hq
    exact countOccurrence_inWords hg.linked fun id hid => (hq.room h hid).trans_lt hroom

/-- A class takes over the count of another one alike if there is room for the sum. -/
theorem absorb_inWords {plan : Absorption} (hplan : plan.Sound p)
    (hroom : (p.classAt plan.survivor).pending + (p.classAt plan.absorbed).pending < UInt64.size) :
    SameInWords (absorb plan) p := by
  have hjoin : (p.retire plan).updateLive plan.survivor
        (joinMembers .word · (p.classAt plan.absorbed)) =
      (p.retire plan).updateLive plan.survivor
        (joinMembers p.arithmetic · (p.classAt plan.absorbed)) := by
    refine updateLive_congr fun cls hcls => ?_
    rw [retire, contents?_redirect, contents?_vacate hplan.absorbed_lt, if_neg hplan.ne.symm] at hcls
    have hclass : p.classAt plan.survivor = cls := by
      rw [classAt, hplan.survivor_live, Option.mem_def.1 hcls, Option.getD_some]
    rw [hclass] at hroom
    rw [joinMembers, joinMembers, Arithmetic.add_of_lt _ hroom, Arithmetic.add_of_lt _ hroom]
  refine .get_bind ?_
  rw [classAt_inWords]
  refine .bind (P := fun _ => True) (.ok trivial (congrArg inWords hjoin)) ?_
  rintro _ q _ - rfl
  cases Multiterm.mergeOption (p.classAt plan.survivor).term (p.classAt plan.absorbed).term with
  | error c => exact .error rfl
  | ok m => exact .ok trivial (q.update_inWords plan.survivor _)

/-- Two classes are merged alike if there is room for the sum of their counts. -/
theorem merge_inWords (h : p.Linked) (ha : a.index < p.records.size) (hb : b.index < p.records.size)
    (hroom : ∀ plan, p.absorption? a b = some plan →
      (p.classAt plan.survivor).pending + (p.classAt plan.absorbed).pending < UInt64.size) :
    SameInWords (merge a b) p := by
  refine .bind_of_ok (p.findRoot_inWords a) ?_
  rintro _ q₁ _ hok - rfl
  obtain ⟨rfl, hq₁⟩ := (h.findRoot_ends (R := fun _ _ => True) a).of_ok hok
  refine .bind_of_ok (q₁.findRoot_inWords b) ?_
  rintro _ q₂ _ hok - rfl
  obtain ⟨rfl, hq₂⟩ := (hq₁.linked.findRoot_ends (R := fun _ _ => True) b).of_ok hok
  have hq := hq₁.trans hq₂
  refine .get_bind ?_
  rw [absorption?_inWords, hq₁.resolve, hq.absorption?_resolve h]
  cases hplan : p.absorption? a b with
  | none => exact .ok trivial rfl
  | some plan =>
    have hsound := hq.sound (h.absorption_sound ha hb hplan)
    refine .bind (absorb_inWords hsound (by rw [hq.classAt]; exact hroom plan hplan)) ?_
    rintro _ _ _ - rfl
    exact .ok trivial rfl

end Multiequation.Partition
