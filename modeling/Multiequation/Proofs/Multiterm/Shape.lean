import Multiequation.Proofs.Multiterm.Recursion

/-!
# Occurrences and shapes under merging and peeling

Merging and peeling lose no occurrence of a variable and make up none. A multiterm in which every cell
holds something can be peeled, and stays so when it is merged; what peeling keeps is collapsed, with
nothing but placeholders below its topmost variables.
-/

namespace Multiequation

namespace Cell

/-- The cell holds a variable or a multiterm. -/
def IsOccupied (c : Cell) : Prop := c.vars.toList ≠ [] ∨ c.term.isSome

/-- The path leads from one cell to the other, and all cells above the latter hold a multiterm and no
variables. -/
inductive Reaches : Cell → List ℕ → Cell → Prop
  | here (c : Cell) : Reaches c [] c
  | arg {f : Symbol} {args : List Cell} {i : ℕ} {c d : Cell} {path : List ℕ} :
      args[i]? = some c → Reaches c path d → Reaches (.nested ⟨f, args⟩) (i :: path) d

/-- From a cell with variables no other one is reached. -/
theorem reaches_iff_of_vars {c d : Cell} {path : List ℕ} (h : c.vars.toList ≠ []) :
    c.Reaches path d ↔ path = [] ∧ d = c := by
  constructor
  · intro hd
    cases hd with
    | here => exact ⟨rfl, rfl⟩
    | arg => exact absurd rfl h
  · rintro ⟨rfl, rfl⟩
    exact .here d

/-- The cell holds one variable alone, or a multiterm alone. -/
def IsSettled (c : Cell) : Prop :=
  (∃ v, c.vars.toList = [v] ∧ c.term = none) ∨ (c.vars.toList = [] ∧ c.term.isSome)

theorem IsSettled.isOccupied {c : Cell} (h : c.IsSettled) : c.IsOccupied := by
  obtain ⟨v, hv, -⟩ | ⟨-, ht⟩ := h
  · exact .inl (by simp [hv])
  · exact .inr ht

theorem mem_varsOfArgs {v : Var} {cells : List Cell} : v ∈ varsOfArgs cells ↔
    ∃ c ∈ cells, v ∈ c.vars.toList ∨ v ∈ Multiterm.varsOfOption c.term := by
  induction cells with
  | nil => simp
  | cons c cells ih => simp [ih, or_assoc]

end Cell

namespace Multiterm

theorem mem_varsOfOption {v : Var} {t : Option Multiterm} :
    v ∈ varsOfOption t ↔ ∃ u, t = some u ∧ v ∈ u.vars := by
  cases t <;> simp

/-- Every cell at any depth is as `P` says. -/
inductive AllCells (P : Cell → Prop) : Multiterm → Prop
  | mk {f : Symbol} {args : List Cell} : (∀ c ∈ args, P c) →
      (∀ c ∈ args, ∀ t, c.term = some t → AllCells P t) → AllCells P ⟨f, args⟩

theorem allCells_mk {P : Cell → Prop} {f : Symbol} {args : List Cell} : AllCells P ⟨f, args⟩ ↔
    ∀ c ∈ args, P c ∧ ∀ t, c.term = some t → AllCells P t := by
  constructor
  · rintro ⟨h₁, h₂⟩ c hc
    exact ⟨h₁ c hc, h₂ c hc⟩
  · intro h
    exact .mk (fun c hc => (h c hc).1) fun c hc => (h c hc).2

theorem AllCells.imp {P Q : Cell → Prop} (hPQ : ∀ c, P c → Q c) {t : Multiterm}
    (h : t.AllCells P) : t.AllCells Q := by
  induction h with
  | mk hP _ ih => exact .mk (fun c hc => hPQ c (hP c hc)) ih

/-- Every cell at any depth holds a variable or a multiterm. -/
abbrev Filled (t : Multiterm) : Prop := t.AllCells Cell.IsOccupied

/-- Every cell at any depth holds one variable alone or a multiterm alone. -/
abbrev Collapsed (t : Multiterm) : Prop := t.AllCells Cell.IsSettled

theorem Collapsed.filled {t : Multiterm} (h : t.Collapsed) : t.Filled :=
  h.imp fun _ => Cell.IsSettled.isOccupied

/-- Induction over collapsed multiterms: every cell is one variable, of which `Q` is known, or one
multiterm. -/
theorem Collapsed.induction_vars {Q : Var → Prop} {P : Multiterm → Prop}
    (mk : ∀ f args, (∀ c ∈ args, (∃ v, c = .var v ∧ Q v) ∨ ∃ s, c = .nested s ∧ P s) → P ⟨f, args⟩)
    {t : Multiterm} (ht : t.Collapsed) (hQ : ∀ v ∈ t.vars, Q v) : P t := by
  induction ht with
  | @mk f args hsettled _ ih =>
    refine mk f args fun c hc => ?_
    have hmem : ∀ v, v ∈ c.vars.toList ∨ v ∈ varsOfOption c.term → Q v := fun v hv =>
      hQ v (Cell.mem_varsOfArgs.2 ⟨c, hc, hv⟩)
    have hterms := ih c hc
    obtain ⟨⟨vs⟩, t⟩ := c
    obtain ⟨v, rfl, rfl⟩ | ⟨rfl, hsome⟩ := hsettled _ hc
    · exact .inl ⟨v, rfl, hmem v (.inl List.mem_cons_self)⟩
    · obtain ⟨s, rfl⟩ := Option.isSome_iff_exists.1 hsome
      exact .inr ⟨s, rfl, hterms s rfl fun v hv => hmem v (.inr hv)⟩

/-! ### Merging -/

/-- A merge has the occurrences of both multiterms. -/
theorem vars_merge {l r m : Multiterm} (h : l.merge r = .ok m) : m.vars.Perm (l.vars ++ r.vars) := by
  refine merge_induction (P := fun l r m => m.vars.Perm (l.vars ++ r.vars)) ?_ h
  intro f ls rs ms hms
  simp only [vars_mk]
  induction hms with
  | nil => rfl
  | @cons l r m ls rs ms hm _ ih =>
    have hcell : ∀ v, (m.vars.toList ++ varsOfOption m.term).count v =
        (l.vars.toList ++ varsOfOption l.term ++ (r.vars.toList ++ varsOfOption r.term)).count v := by
      intro v
      cases hm with
      | left vs ws t => simp; omega
      | right vs ws t => simp
      | both vs ws hstu =>
        have := hstu.count_eq v
        simp at this ⊢
        omega
    refine List.perm_iff_count.2 fun v => ?_
    have hargs := ih.count_eq v
    have hcell := hcell v
    simp only [Cell.varsOfArgs_cons, List.count_append] at hargs hcell ⊢
    omega

theorem vars_mergeOption {l r m : Option Multiterm} (h : mergeOption l r = .ok m) :
    (varsOfOption m).Perm (varsOfOption l ++ varsOfOption r) := by
  obtain ⟨rfl, rfl⟩ | ⟨rfl, rfl⟩ | ⟨s, t, u, rfl, rfl, rfl, hu⟩ := mergeOption_eq_ok h
  · simp
  · simp
  · exact vars_merge hu

theorem isSome_mergeOption {l r m : Option Multiterm} (h : mergeOption l r = .ok m)
    (hlr : l.isSome ∨ r.isSome) : m.isSome := by
  obtain ⟨rfl, rfl⟩ | ⟨rfl, rfl⟩ | ⟨s, t, u, rfl, rfl, rfl, hu⟩ := mergeOption_eq_ok h
  · simpa using hlr
  · simpa using hlr
  · rfl

/-- A merge of filled multiterms is filled. -/
theorem Filled.merge {l r m : Multiterm} (hl : l.Filled) (hr : r.Filled) (h : l.merge r = .ok m) :
    m.Filled := by
  revert hl hr
  refine merge_induction (P := fun l r m => l.Filled → r.Filled → m.Filled) ?_ h
  intro f ls rs ms hms
  simp only [allCells_mk]
  induction hms with
  | nil => exact fun _ _ => by simp
  | @cons l r m ls rs ms hm _ ih =>
    simp only [List.forall_mem_cons]
    rintro ⟨hl, hls⟩ ⟨hr, hrs⟩
    refine ⟨?_, ih hls hrs⟩
    cases hm with
    | left vs ws t =>
      refine ⟨?_, hl.2⟩
      simpa [Cell.IsOccupied] using hl.1.imp_left fun h₁ h₂ _ => h₁ h₂
    | right vs ws t =>
      refine ⟨?_, hr.2⟩
      simpa [Cell.IsOccupied] using hr.1.imp_left fun h₁ _ h₂ => h₁ h₂
    | both vs ws hstu =>
      refine ⟨.inr rfl, ?_⟩
      rintro t ⟨⟩
      exact hstu (hl.2 _ rfl) (hr.2 _ rfl)

theorem filled_mergeOption {l r m : Option Multiterm} (hl : ∀ t, l = some t → t.Filled)
    (hr : ∀ t, r = some t → t.Filled) (h : mergeOption l r = .ok m) :
    ∀ t, m = some t → t.Filled := by
  obtain ⟨rfl, rfl⟩ | ⟨rfl, rfl⟩ | ⟨s, t, u, rfl, rfl, rfl, hu⟩ := mergeOption_eq_ok h
  · exact hr
  · exact hl
  · rintro _ ⟨⟩
    exact (hl s rfl).merge (hr t rfl) hu

/-! ### Peeling -/

/-- The frontier has the occurrences of the whole multiterm. -/
theorem vars_frontier {t : Multiterm} {frontier : List Cell} (h : t.peel.frontier = .ok frontier) :
    Cell.varsOfArgs frontier = t.vars := by
  refine peel_induction (P := fun t _ cells => Cell.varsOfArgs cells = t.vars) ?_ h
  intro f args kept cells hp
  rw [vars_mk]
  induction hp with
  | nil => rfl
  | move _ _ ih => rw [Cell.varsOfArgs_cons, Cell.varsOfArgs_cons, ih]
  | stay hs _ ih =>
    rw [Cell.varsOfArgs_append, hs, ih, Cell.varsOfArgs_cons]
    rfl

/-- What is kept has no other variables than the multiterm had. -/
theorem vars_kept_subset {t : Multiterm} {frontier : List Cell}
    (h : t.peel.frontier = .ok frontier) : t.peel.kept.vars ⊆ t.vars := by
  refine peel_induction (P := fun t kept _ => kept.vars ⊆ t.vars) ?_ h
  intro f args kept cells hp
  simp only [vars_mk]
  induction hp with
  | nil => exact fun _ h => h
  | move hv _ ih =>
    rw [Cell.varsOfArgs_cons, Cell.varsOfArgs_cons]
    refine List.append_subset.2 ⟨?_, fun u hu => List.mem_append_right _ (ih hu)⟩
    intro u hu
    obtain rfl : u = _ := by simpa [Cell.var] using hu
    exact List.mem_append_left _ (List.mem_append_left _ (List.mem_of_head? hv))
  | stay hs _ ih =>
    rw [Cell.varsOfArgs_cons, Cell.varsOfArgs_cons]
    refine List.append_subset.2 ⟨?_, fun u hu => List.mem_append_right _ (ih hu)⟩
    exact fun u hu => List.mem_append_left _ (hs hu)

/-- What is kept is collapsed. -/
theorem collapsed_kept {t : Multiterm} {frontier : List Cell} (h : t.peel.frontier = .ok frontier) :
    t.peel.kept.Collapsed := by
  refine peel_induction (P := fun _ kept _ => kept.Collapsed) ?_ h
  intro f args kept cells hp
  rw [Collapsed, allCells_mk]
  induction hp with
  | nil => simp
  | @move c v _ _ _ _ _ ih =>
    refine List.forall_mem_cons.2 ⟨⟨.inl ⟨v, rfl, rfl⟩, ?_⟩, ih⟩
    rintro t ⟨⟩
  | stay hs _ ih =>
    refine List.forall_mem_cons.2 ⟨⟨.inr ⟨rfl, rfl⟩, ?_⟩, ih⟩
    rintro t ⟨⟩
    exact hs

/-- Every cell of the frontier of a filled multiterm has a variable, and its multiterm is filled. -/
theorem Filled.frontier {t : Multiterm} {frontier : List Cell} (ht : t.Filled)
    (h : t.peel.frontier = .ok frontier) :
    ∀ c ∈ frontier, c.vars.toList ≠ [] ∧ ∀ s, c.term = some s → s.Filled := by
  revert ht
  refine peel_induction (P := fun t _ cells => t.Filled →
    ∀ c ∈ cells, c.vars.toList ≠ [] ∧ ∀ s, c.term = some s → s.Filled) ?_ h
  intro f args kept cells hp
  rw [Filled, allCells_mk]
  induction hp with
  | nil => simp
  | move hv _ ih =>
    simp only [List.forall_mem_cons]
    rintro ⟨hc, hcells⟩
    exact ⟨⟨List.ne_nil_of_mem (List.mem_of_head? hv), hc.2⟩, ih hcells⟩
  | stay hs _ ih =>
    simp only [List.forall_mem_cons, List.forall_mem_append]
    rintro ⟨hc, hcells⟩
    exact ⟨hs (hc.2 _ rfl), ih hcells⟩

/-- Peeling passes through all cells that are reached through cells without variables. -/
theorem isOccupied_of_frontier {t : Multiterm} {frontier : List Cell}
    (h : t.peel.frontier = .ok frontier) :
    ∀ path c, (Cell.nested t).Reaches path c → c.IsOccupied := by
  refine peel_induction (P := fun t _ _ => ∀ path c, (Cell.nested t).Reaches path c →
    c.IsOccupied) ?_ h
  intro f args kept cells hp path c hc
  cases hc with
  | here => exact .inr rfl
  | @arg _ _ i a _ rest hi hc =>
    obtain ⟨hnone, -⟩ | ⟨d, v, hd, hv, -⟩ | ⟨s, u, moved, hs, -, ih⟩ := hp.getElem? i
    · cases hi.symm.trans hnone
    · cases hi.symm.trans hd
      have hvars := List.ne_nil_of_mem (List.mem_of_head? hv)
      obtain ⟨-, rfl⟩ := (Cell.reaches_iff_of_vars hvars).1 hc
      exact .inl hvars
    · cases hi.symm.trans hs
      exact ih rest c hc

theorem exists_frontier_of_isOccupied {t : Multiterm}
    (h : ∀ path c, (Cell.nested t).Reaches path c → c.IsOccupied) :
    ∃ frontier, t.peel.frontier = .ok frontier := by
  induction t using Multiterm.induction with
  | mk f args ih =>
    rw [peel_mk]
    have hargs : ∀ c ∈ args, ∀ path d, c.Reaches path d → d.IsOccupied := by
      intro c hc path d hd
      obtain ⟨i, hi⟩ := List.mem_iff_getElem?.1 hc
      exact h (i :: path) d (.arg hi hd)
    clear h
    induction args with
    | nil => exact ⟨[], rfl⟩
    | cons c cells ihcells =>
      rw [List.forall_mem_cons] at ih hargs
      obtain ⟨rest, hrest⟩ := ihcells ih.2 hargs.2
      dsimp only at hrest ⊢
      cases hv : c.vars.front? with
      | some v => exact ⟨c :: rest, by rw [Cell.peelArgs_cons_of_front hv, hrest]; rfl⟩
      | none =>
        have hempty : c.vars.toList = [] := List.head?_eq_none_iff.1 hv
        have hocc := hargs.1 [] c (.here c)
        obtain ⟨s, hs⟩ := Option.isSome_iff_exists.1 (hocc.resolve_left (by simp [hempty]))
        obtain rfl := Cell.eq_nested_of_front hv hs
        obtain ⟨moved, hmoved⟩ := ih.1 s hs hargs.1
        exact ⟨moved ++ rest, by rw [Cell.peelArgs_nested_cons, hmoved, hrest]; rfl⟩

/-- Peeling stops only at a cell with neither variables nor a multiterm that is reached through cells
without variables. -/
theorem exists_frontier_iff {t : Multiterm} : (∃ frontier, t.peel.frontier = .ok frontier) ↔
    ∀ path c, (Cell.nested t).Reaches path c → c.IsOccupied :=
  ⟨fun ⟨_, h⟩ => isOccupied_of_frontier h, exists_frontier_of_isOccupied⟩

/-- Below an occupied cell with a filled multiterm every cell is occupied. -/
theorem isOccupied_of_reaches {c d : Cell} {path : List ℕ} (h : c.Reaches path d)
    (hc : c.IsOccupied) (ht : ∀ t, c.term = some t → t.Filled) : d.IsOccupied := by
  induction h with
  | here => exact hc
  | arg hi _ ih =>
    obtain ⟨hocc, hterm⟩ := allCells_mk.1 (ht _ rfl) _ (List.mem_of_getElem? hi)
    exact ih hocc hterm

/-- A filled multiterm can be peeled. -/
theorem Filled.exists_frontier {t : Multiterm} (ht : t.Filled) :
    ∃ frontier, t.peel.frontier = .ok frontier := by
  refine exists_frontier_iff.2 fun path c hc => isOccupied_of_reaches hc (.inr rfl) ?_
  rintro _ ⟨⟩
  exact ht

end Multiterm

end Multiequation
