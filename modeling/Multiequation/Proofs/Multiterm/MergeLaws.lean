import Multiequation.Proofs.Multiterm.Gathering

/-!
# Laws of merging

Two multiterms can be merged exactly when they do not conflict. Where a merge of a merge with a third
multiterm is possible at all, no two of the three conflict; what stands at each path is then the first
application there and the variables of all three in their order, however the merges are bracketed. So
merging is associative, it is commutative but for the order of variables, and the order of a list does
not decide whether it can be merged.
-/

namespace Multiequation

namespace Multiterm

open Cell

variable {parts parts' : List Cell} {a b c l r m x y : Option Multiterm}

/-- Gathered multiterms can be merged exactly when nothing gathered by the one conflicts with anything
gathered by the other. -/
theorem exists_mergeOption_iff_of_gathers (hl : Gathers parts ⟨.empty, l⟩)
    (hr : Gathers parts' ⟨.empty, r⟩) :
    (∃ m, mergeOption l r = .ok m) ↔ ∀ c ∈ parts, ∀ d ∈ parts', ¬ c.Conflict d := by
  constructor
  · rintro ⟨m, hm⟩ c hc d hd
    have hgathers := gathers_mergeOption hl hr hm
    exact hgathers.not_conflict (List.mem_append_left _ hc) (List.mem_append_right _ hd)
  · intro h
    cases hm : mergeOption l r with
    | ok m => exact ⟨m, rfl⟩
    | error e =>
      obtain ⟨c, hc, d, hd, hcd⟩ := exists_conflict_of_mergeOption hl hr hm
      exact absurd hcd (h c hc d hd)

/-- Two multiterms can be merged exactly when they do not conflict. -/
theorem exists_mergeOption_iff :
    (∃ m, mergeOption l r = .ok m) ↔ ¬ Conflict ⟨.empty, l⟩ ⟨.empty, r⟩ := by
  rw [exists_mergeOption_iff_of_gathers (gathers_singleton _) (gathers_singleton _)]
  simp

/-! ### Associativity -/

theorem exists_merge_left_iff :
    (∃ m, (mergeOption a b).bind (fun ab => mergeOption ab c) = .ok m) ↔
      ¬ Conflict ⟨.empty, a⟩ ⟨.empty, b⟩ ∧ ¬ Conflict ⟨.empty, a⟩ ⟨.empty, c⟩ ∧
        ¬ Conflict ⟨.empty, b⟩ ⟨.empty, c⟩ := by
  cases hab : mergeOption a b with
  | error e =>
    have hconflict : Conflict ⟨.empty, a⟩ ⟨.empty, b⟩ := conflict_of_mergeOption hab .empty .empty
    simp [Except.bind, hconflict]
  | ok ab =>
    have hno := exists_mergeOption_iff.1 ⟨ab, hab⟩
    have hgathers := gathers_mergeOption (gathers_singleton _) (gathers_singleton _) hab
    simp only [Except.bind, exists_mergeOption_iff_of_gathers hgathers (gathers_singleton _)]
    simp [hno]

theorem exists_merge_right_iff :
    (∃ m, (mergeOption b c).bind (fun bc => mergeOption a bc) = .ok m) ↔
      ¬ Conflict ⟨.empty, a⟩ ⟨.empty, b⟩ ∧ ¬ Conflict ⟨.empty, a⟩ ⟨.empty, c⟩ ∧
        ¬ Conflict ⟨.empty, b⟩ ⟨.empty, c⟩ := by
  cases hbc : mergeOption b c with
  | error e =>
    have hconflict : Conflict ⟨.empty, b⟩ ⟨.empty, c⟩ := conflict_of_mergeOption hbc .empty .empty
    simp [Except.bind, hconflict]
  | ok bc =>
    have hno := exists_mergeOption_iff.1 ⟨bc, hbc⟩
    have hgathers := gathers_mergeOption (gathers_singleton _) (gathers_singleton _) hbc
    simp only [Except.bind, exists_mergeOption_iff_of_gathers (gathers_singleton _) hgathers]
    simp [hno]

/-- A merge without variables of its own keeps what stands at each path. -/
theorem mergedAt_bare (h : mergeOption l r = .ok m) (path : List ℕ) :
    MergedAt ⟨.empty, l⟩ ⟨.empty, r⟩ ⟨.empty, m⟩ path :=
  mergedAt_mergeOption h .empty .empty path

/-- Both bracketings have the same result. -/
theorem eq_of_bracketings {m' : Option Multiterm} (hab : mergeOption a b = .ok x)
    (hm : mergeOption x c = .ok m) (hbc : mergeOption b c = .ok y)
    (hm' : mergeOption a y = .ok m') : m = m' := by
  suffices h : Cell.mk .empty m = Cell.mk .empty m' from congrArg Cell.term h
  refine eq_of_paths (fun path => ?_) fun path => ?_
  · rw [(mergedAt_bare hm path).head, (mergedAt_bare hab path).head, Option.or_assoc,
      ← (mergedAt_bare hbc path).head, ← (mergedAt_bare hm' path).head]
  · rw [(mergedAt_bare hm path).vars, (mergedAt_bare hab path).vars, List.append_assoc,
      ← (mergedAt_bare hbc path).vars, ← (mergedAt_bare hm' path).vars]

/-- Both bracketings succeed together, and with the same multiterm. -/
theorem merge_left_eq_ok_iff : (mergeOption a b).bind (fun ab => mergeOption ab c) = .ok m ↔
    (mergeOption b c).bind (fun bc => mergeOption a bc) = .ok m := by
  have hboth : (∃ m, (mergeOption a b).bind (fun ab => mergeOption ab c) = .ok m) ↔
      ∃ m, (mergeOption b c).bind (fun bc => mergeOption a bc) = .ok m :=
    exists_merge_left_iff.trans exists_merge_right_iff.symm
  constructor
  · intro hm
    obtain ⟨m', hm'⟩ := hboth.1 ⟨m, hm⟩
    obtain ⟨x, hx, hxm⟩ := Except.bind_eq_ok_iff.1 hm
    obtain ⟨y, hy, hym⟩ := Except.bind_eq_ok_iff.1 hm'
    rwa [eq_of_bracketings hx hxm hy hym]
  · intro hm'
    obtain ⟨m', hm⟩ := hboth.2 ⟨m, hm'⟩
    obtain ⟨x, hx, hxm⟩ := Except.bind_eq_ok_iff.1 hm
    obtain ⟨y, hy, hym⟩ := Except.bind_eq_ok_iff.1 hm'
    rwa [← eq_of_bracketings hx hxm hy hym]

/-! ### The order of multiterms -/

/-- Both merges fail, or both succeed with multiterms that are equal but for the order of variables in
the cells at each depth. -/
def SameOutcome : Except Clash (Option Multiterm) → Except Clash (Option Multiterm) → Prop
  | .ok m, .ok m' => Reordered ⟨.empty, m⟩ ⟨.empty, m'⟩
  | .error _, .error _ => True
  | _, _ => False

/-- A list and any permutation of it have the same outcome. -/
theorem sameOutcome_of_perm {ts us : List (Option Multiterm)} (h : ts.Perm us) :
    SameOutcome (mergeOptions ts) (mergeOptions us) := by
  have hboth : (∃ m, mergeOptions ts = .ok m) ↔ ∃ m, mergeOptions us = .ok m := by
    simp only [exists_mergeOptions_iff, h.mem_iff]
  cases hts : mergeOptions ts with
  | ok m =>
    obtain ⟨m', hus⟩ := hboth.1 ⟨m, hts⟩
    rw [hus]
    exact ((gathers_mergeOptions hts).perm (h.map _)).reordered (gathers_mergeOptions hus)
  | error e =>
    cases hus : mergeOptions us with
    | ok m' =>
      obtain ⟨m, hm⟩ := hboth.2 ⟨m', hus⟩
      cases hts.symm.trans hm
    | error e' => trivial

theorem mergeOptions_pair (a b : Option Multiterm) : mergeOptions [a, b] = mergeOption a b := by
  simp only [mergeOptions, List.foldlM_cons, List.foldlM_nil]
  cases h : mergeOption a b <;> simp [bind, Except.bind, pure, Except.pure, h]

/-- Merging is associative, and commutative but for the order of variables; an absent multiterm changes
nothing on either side. Whether the multiterms of a list can be merged does not depend on their
order. -/
theorem merge_laws :
    (∀ a b c m, (mergeOption a b).bind (fun ab => mergeOption ab c) = .ok m ↔
      (mergeOption b c).bind (fun bc => mergeOption a bc) = .ok m) ∧
    (∀ a b, SameOutcome (mergeOption a b) (mergeOption b a)) ∧
    (∀ a, mergeOption none a = .ok a ∧ mergeOption a none = .ok a) ∧
    ∀ ts us, ts.Perm us → SameOutcome (mergeOptions ts) (mergeOptions us) := by
  refine ⟨fun a b c m => merge_left_eq_ok_iff, fun a b => ?_, fun a => ?_, fun ts us h => ?_⟩
  · rw [← mergeOptions_pair, ← mergeOptions_pair]
    exact sameOutcome_of_perm (.swap b a [])
  · exact ⟨mergeOption_none_left a, mergeOption_none_right a⟩
  · exact sameOutcome_of_perm h

/-- The variables of a place are listed in the order in which multiterms are merged: with `h(_1, _5)` in
front of `h(_2 = c, k(_4))` as `_1 = _2`, the other way round as `_2 = _1`. -/
theorem merge_laws_of_shared_places : ∃ s t m m' : Option Multiterm, List.Perm [s, none, t] [t, s, none] ∧
    mergeOptions [s, none, t] = .ok m ∧ mergeOptions [t, s, none] = .ok m' ∧ m ≠ m' ∧
    Reordered ⟨.empty, m⟩ ⟨.empty, m'⟩ := by
  let h : Symbol := ⟨"h", by decide⟩
  let c : Multiterm := ⟨⟨"c", by decide⟩, []⟩
  let k : Multiterm := ⟨⟨"k", by decide⟩, [.var ⟨4⟩]⟩
  let s : Option Multiterm := some ⟨h, [.var ⟨1⟩, .var ⟨5⟩]⟩
  let t : Option Multiterm := some ⟨h, [⟨⟨[⟨2⟩]⟩, some c⟩, .nested k]⟩
  have hs : mergeOptions [s, none, t] =
      .ok (some ⟨h, [⟨⟨[⟨1⟩, ⟨2⟩]⟩, some c⟩, ⟨⟨[⟨5⟩]⟩, some k⟩]⟩) := rfl
  have ht : mergeOptions [t, s, none] =
      .ok (some ⟨h, [⟨⟨[⟨2⟩, ⟨1⟩]⟩, some c⟩, ⟨⟨[⟨5⟩]⟩, some k⟩]⟩) := rfl
  have hperm : List.Perm [s, none, t] [t, s, none] :=
    @List.perm_append_comm _ [s, none] [t]
  have hsame := merge_laws.2.2.2 _ _ hperm
  rw [hs, ht] at hsame
  exact ⟨s, t, _, _, hperm, hs, ht, by simp [h], hsame⟩

end Multiterm

end Multiequation
