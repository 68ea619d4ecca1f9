import Multiequation.Partition
import Mathlib.Data.Finset.Card
import Mathlib.Tactic

/-!
# Forward links

The links of a partition lead from absorbed classes to other classes and never in a circle, and
nothing is left in the record of an absorbed class. Then a class has at most as many links before it as
there are records, so that following this many links reaches a live class. Finding a class shortens
links and changes neither where they lead in the end nor what the classes hold.
-/

namespace Multiequation.Partition

/-- Every link and every entry for an owner leads to a class, some rank falls along every link, and
what has a link has nothing else. -/
structure Linked (p : Partition) : Prop where
  owners_lt : ∀ {i : ℕ} {id : ClassId}, p.owners[i]? = some id → id.index < p.records.size
  target_lt : ∀ {id next}, p.forward? id = some next → next.index < p.records.size
  acyclic : ∃ rank : ClassId → ℕ, ∀ {id next}, p.forward? id = some next → rank next < rank id
  emptied : ∀ {id next}, p.forward? id = some next → p.contents? id = some default

variable {p q : Partition} {id next : ClassId}

theorem forward?_eq_some_iff : p.forward? id = some next ↔
    ∃ record, p.records[id.index]? = some record ∧ record.forward = some next :=
  Option.bind_eq_some_iff

theorem lt_of_forward? (h : p.forward? id = some next) : id.index < p.records.size := by
  obtain ⟨record, hrecord, -⟩ := forward?_eq_some_iff.1 h
  exact (Array.getElem?_eq_some_iff.1 hrecord).1

/-- A number that is not that of a class has no link. -/
theorem forward?_of_ge (h : p.records.size ≤ id.index) : p.forward? id = none := by
  rw [forward?, Array.getElem?_eq_none h, Option.bind_none]

/-- Every class has a record. -/
theorem exists_contents? (hid : id.index < p.records.size) : ∃ cls, p.contents? id = some cls :=
  ⟨_, by rw [contents?, Array.getElem?_eq_getElem hid, Option.map_some]⟩

/-! ### Resolving -/

namespace Linked

/-- Classes are counted instead of ranked: the rank can be bounded by the number of records. -/
theorem exists_rank_le (h : p.Linked) : ∃ rank : ClassId → ℕ,
    (∀ {id next}, p.forward? id = some next → rank next < rank id) ∧
      ∀ id, rank id ≤ p.records.size := by
  obtain ⟨rank, hrank⟩ := h.acyclic
  let below := fun id : ClassId => (Finset.range p.records.size).filter fun i => rank ⟨i⟩ < rank id
  refine ⟨fun id => (below id).card, fun {id next} hlink => ?_, fun id => ?_⟩
  · refine Finset.card_lt_card ⟨fun i hi => ?_, fun hsub => ?_⟩
    · simp only [below, Finset.mem_filter] at hi ⊢
      exact ⟨hi.1, hi.2.trans (hrank hlink)⟩
    · have hmem : next.index ∈ below id := by
        simpa [below] using ⟨h.target_lt hlink, hrank hlink⟩
      simpa [below] using hsub hmem
  · exact (Finset.card_filter_le _ _).trans (Finset.card_range _).le

/-- Induction along the links, from the live classes on. -/
@[elab_as_elim]
theorem induction (h : p.Linked) {P : ClassId → Prop}
    (live : ∀ id, p.forward? id = none → P id)
    (link : ∀ id next, p.forward? id = some next → P next → P id) (id : ClassId) : P id := by
  obtain ⟨rank, hrank⟩ := h.acyclic
  induction hn : rank id using Nat.strong_induction_on generalizing id with
  | _ n ih =>
    cases hf : p.forward? id with
    | none => exact live id hf
    | some next => exact link id next hf (ih _ (hn ▸ hrank hf) next rfl)

end Linked

theorem resolveWithin_of_live (h : p.forward? id = none) (n : ℕ) : p.resolveWithin n id = id := by
  cases n with
  | zero => rfl
  | succ n => rw [resolveWithin, h]

/-- There is no link from a class of the lowest rank. -/
theorem forward?_eq_none_of_rank {rank : ClassId → ℕ}
    (hrank : ∀ {id next}, p.forward? id = some next → rank next < rank id) (hid : rank id ≤ 0) :
    p.forward? id = none := by
  refine Option.eq_none_iff_forall_ne_some.2 fun next hf => ?_
  have := hrank hf
  omega

/-- From some number on it does not matter how many links may be followed. -/
theorem resolveWithin_eq_of_le {rank : ClassId → ℕ}
    (hrank : ∀ {id next}, p.forward? id = some next → rank next < rank id) {n m : ℕ}
    (hn : rank id ≤ n) (hm : rank id ≤ m) : p.resolveWithin n id = p.resolveWithin m id := by
  induction n generalizing id m with
  | zero =>
    have hlive := forward?_eq_none_of_rank hrank hn
    rw [resolveWithin_of_live hlive, resolveWithin_of_live hlive]
  | succ n ih =>
    cases hf : p.forward? id with
    | none => rw [resolveWithin_of_live hf, resolveWithin_of_live hf]
    | some next =>
      have := hrank hf
      obtain ⟨m, rfl⟩ := Nat.exists_eq_add_one_of_ne_zero (show m ≠ 0 by omega)
      simp only [resolveWithin, hf]
      exact ih (by omega) (by omega)

theorem resolve_of_live (h : p.forward? id = none) : p.resolve id = id :=
  resolveWithin_of_live h _

namespace Linked

/-- Resolving a class is resolving the one it is linked to. -/
theorem resolve_of_forward? (h : p.Linked) (hf : p.forward? id = some next) :
    p.resolve id = p.resolve next := by
  obtain ⟨rank, hrank, hle⟩ := h.exists_rank_le
  have hid := hle id
  calc p.resolve id = p.resolveWithin (p.records.size + 1) id :=
        resolveWithin_eq_of_le hrank hid (by omega)
    _ = p.resolve next := by simp only [resolveWithin, hf, resolve]

theorem forward?_resolve (h : p.Linked) (id : ClassId) : p.forward? (p.resolve id) = none := by
  induction id using h.induction with
  | live id hid => rwa [resolve_of_live hid]
  | link id next hf hnext => rwa [h.resolve_of_forward? hf]

theorem resolve_lt (h : p.Linked) (hid : id.index < p.records.size) :
    (p.resolve id).index < p.records.size := by
  induction id using h.induction with
  | live id hlive => rwa [resolve_of_live hlive]
  | link id next hf hnext =>
    rw [h.resolve_of_forward? hf]
    exact hnext (h.target_lt hf)

theorem resolve_resolve (h : p.Linked) (id : ClassId) :
    p.resolve (p.resolve id) = p.resolve id :=
  resolve_of_live (h.forward?_resolve id)

/-- A class is live exactly when it resolves to itself. -/
theorem isLive_iff (h : p.Linked) : p.isLive id = true ↔ p.resolve id = id := by
  rw [isLive, Option.isNone_iff_eq_none]
  refine ⟨resolve_of_live, fun hid => ?_⟩
  rw [← hid]
  exact h.forward?_resolve id

/-- Whatever is fixed on live classes and kept along links is the resolved class. -/
theorem eq_resolve (h : p.Linked) {g : ClassId → ClassId}
    (live : ∀ id, p.forward? id = none → g id = id)
    (link : ∀ id next, p.forward? id = some next → g id = g next) : p.resolve = g := by
  funext id
  induction id using h.induction with
  | live id hid => rw [resolve_of_live hid, live id hid]
  | link id next hf hnext => rw [h.resolve_of_forward? hf, hnext, link id next hf]

theorem rank_resolve_le (h : p.Linked) {rank : ClassId → ℕ}
    (hrank : ∀ {id next}, p.forward? id = some next → rank next < rank id) (id : ClassId) :
    rank (p.resolve id) ≤ rank id := by
  induction id using h.induction with
  | live id hid => rw [resolve_of_live hid]
  | link id next hf hnext =>
    rw [h.resolve_of_forward? hf]
    exact hnext.trans (hrank hf).le

end Linked

/-! ### Changing links -/

/-- `q` has the same classes as `p`, with the same contents, behind links that may be shorter. -/
structure Relinked (p q : Partition) : Prop where
  size : q.records.size = p.records.size
  linked : q.Linked
  resolve : q.resolve = p.resolve
  contents : q.contents? = p.contents?
  arithmetic : q.arithmetic = p.arithmetic

theorem Relinked.refl (h : p.Linked) : Relinked p p := ⟨rfl, h, rfl, rfl, rfl⟩

theorem Relinked.trans {r : Partition} (h₁ : Relinked p q) (h₂ : Relinked q r) : Relinked p r where
  size := h₂.size.trans h₁.size
  linked := h₂.linked
  resolve := h₂.resolve.trans h₁.resolve
  contents := h₂.contents.trans h₁.contents
  arithmetic := h₂.arithmetic.trans h₁.arithmetic

theorem forward?_redirect_of_lt (hid : id.index < p.records.size) (into j : ClassId) :
    (p.redirect id into).forward? j = if id = j then some into else p.forward? j := by
  rw [forward?_redirect]
  simp only [hid, and_true]

/-- An emptied class may be linked to any class as long as some rank falls along every link
afterwards. -/
theorem Linked.linked_redirect (h : p.Linked) {into : ClassId} (hid : id.index < p.records.size)
    (hempty : p.contents? id = some default) (hinto : into.index < p.records.size)
    (rank : ClassId → ℕ)
    (hrank : ∀ {j k}, (p.redirect id into).forward? j = some k → rank k < rank j) :
    (p.redirect id into).Linked := by
  constructor
  · intro i j hij
    rw [size_records_redirect]
    exact h.owners_lt hij
  · intro j k hjk
    rw [forward?_redirect_of_lt hid] at hjk
    rw [size_records_redirect]
    split_ifs at hjk with hj
    · cases hjk
      exact hinto
    · exact h.target_lt hjk
  · exact ⟨rank, hrank⟩
  · intro j k hjk
    rw [forward?_redirect_of_lt hid] at hjk
    rw [contents?_redirect]
    split_ifs at hjk with hj
    · exact hj ▸ hempty
    · exact h.emptied hjk

/-- A rank that falls along every link still does after a link was pointed at the class at its end. -/
theorem Linked.rank_redirect (h : p.Linked) {rank : ClassId → ℕ}
    (hrank : ∀ {id next}, p.forward? id = some next → rank next < rank id)
    (hf : p.forward? id = some next) {j k : ClassId}
    (hjk : (p.redirect id (p.resolve id)).forward? j = some k) : rank k < rank j := by
  rw [forward?_redirect] at hjk
  split_ifs at hjk with hj
  · obtain ⟨rfl, -⟩ := hj
    cases hjk
    rw [h.resolve_of_forward? hf]
    exact (h.rank_resolve_le hrank next).trans_lt (hrank hf)
  · exact hrank hjk

/-- A link may be pointed straight at the live class it leads to. -/
theorem Linked.relinked_redirect (h : p.Linked) (hf : p.forward? id = some next) :
    Relinked p (p.redirect id (p.resolve id)) := by
  have hid := lt_of_forward? hf
  have hfwd := forward?_redirect_of_lt hid (p.resolve id)
  have hlinked : (p.redirect id (p.resolve id)).Linked := by
    obtain ⟨rank, hrank⟩ := h.acyclic
    exact h.linked_redirect hid (h.emptied hf) (h.resolve_lt hid) rank
      fun hjk => h.rank_redirect hrank hf hjk
  refine ⟨size_records_redirect p id _, hlinked, ?_, funext (contents?_redirect p id _), rfl⟩
  refine hlinked.eq_resolve (fun j hj => ?_) fun j k hjk => ?_
  · rw [hfwd] at hj
    split_ifs at hj
    exact resolve_of_live hj
  · rw [hfwd] at hjk
    split_ifs at hjk with hj
    · subst hj
      cases hjk
      exact (h.resolve_resolve id).symm
    · exact h.resolve_of_forward? hjk

/-- Compressing the links from a class to its root changes nothing else. -/
theorem Linked.relinked_compressWithin (h : p.Linked) (n : ℕ) (id : ClassId) :
    Relinked p (compressWithin (p.resolve id) n id p) := by
  induction n generalizing p id with
  | zero => exact .refl h
  | succ n ih =>
    unfold compressWithin
    cases hf : p.forward? id with
    | none => exact .refl h
    | some next =>
      have hstep := h.relinked_redirect hf
      dsimp only
      split_ifs with hroot
      · exact hstep
      · have hnext : (p.redirect id (p.resolve id)).resolve next = p.resolve id := by
          rw [hstep.resolve, h.resolve_of_forward? hf]
        have := hstep.trans (ih hstep.linked next)
        rwa [hnext] at this

/-- An emptied live class may be linked to another live class; then the classes behind the one lead to
the other, and all else stays. -/
theorem Linked.resolve_redirect_live {into : ClassId} (h : p.Linked) (hid : p.forward? id = none)
    (hlt : id.index < p.records.size) (hempty : p.contents? id = some default)
    (hinto : p.forward? into = none) (hinto_lt : into.index < p.records.size) (hne : into ≠ id) :
    (p.redirect id into).Linked ∧ (p.redirect id into).resolve = fun j =>
      if p.resolve j = id then into else p.resolve j := by
  have hfwd := forward?_redirect_of_lt hlt into
  have hresolve := resolve_of_live hid
  have hresolve_into := resolve_of_live hinto
  have hlinked : (p.redirect id into).Linked := by
    obtain ⟨rank, hrank⟩ := h.acyclic
    -- what leads to the one class is ranked above the other class
    refine h.linked_redirect hlt hempty hinto_lt
      (fun j => rank j + if p.resolve j = id then rank into + 1 else 0) fun {j k} hjk => ?_
    rw [hfwd] at hjk
    split_ifs at hjk with hj
    · subst hj
      cases hjk
      rw [if_pos hresolve, hresolve_into, if_neg hne]
      omega
    · have := hrank hjk
      rw [h.resolve_of_forward? hjk]
      omega
  refine ⟨hlinked, hlinked.eq_resolve (fun j hj => ?_) fun j k hjk => ?_⟩
  · rw [hfwd] at hj
    split_ifs at hj with hj'
    rw [resolve_of_live hj, if_neg (Ne.symm hj')]
  · rw [hfwd] at hjk
    split_ifs at hjk with hj
    · subst hj
      cases hjk
      rw [if_pos hresolve, hresolve_into, if_neg hne]
    · rw [h.resolve_of_forward? hjk]

end Multiequation.Partition
