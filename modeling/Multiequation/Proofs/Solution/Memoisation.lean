import Multiequation.Proofs.Solution.Generality

/-!
# Expanding with and without a memo

The relations of this module say how multiterms are read and classes are expanded, without a bound on
the depth and without the values that the functions fall back on: no rule is for a class that has no
member, nor for a cell that holds neither a variable nor a multiterm. In a solved form every class has
a derivation all the same. The expansion with a memo makes the steps that its relation says, whatever
has been expanded before, and it ends with the term of the plain unfolding. So the variables can be
visited in any order.
-/

namespace Multiequation

namespace Substitution

/-! ### Bindings in any order -/

/-- Bindings of different names can be put in in either order. -/
theorem insertSorted_comm {x y : String} (hxy : x ≠ y) (t u : Term)
    (bindings : List (String × Term)) :
    insertSorted x t (insertSorted y u bindings) = insertSorted y u (insertSorted x t bindings) := by
  induction bindings with
  | nil =>
    have htotal := Std.lt_trichotomy x y
    grind [insertSorted]
  | cons b rest ih =>
    -- each of the two names comes before the first one of the list, in its place, or behind it
    obtain ⟨z, w⟩ := b
    have htotal := Std.lt_trichotomy x y
    have hx := Std.lt_trichotomy x z
    have hy := Std.lt_trichotomy y z
    grind [insertSorted]

/-- Bindings of different names may be given in any order. -/
theorem ofList_perm {bindings bindings' : List (String × Term)} (h : bindings.Perm bindings')
    (hnodup : (bindings.map Prod.fst).Nodup) : ofList bindings = ofList bindings' := by
  have hinj := List.inj_on_of_nodup_map hnodup
  refine h.foldl_eq' (fun b hb c hc σ => ?_) empty
  by_cases hbc : b.1 = c.1
  · rw [hinj hb hc hbc]
  · exact congrArg mk (insertSorted_comm (Ne.symm hbc) _ _ _)

end Substitution

/-! ### Reading -/

section

variable {σ : Type} (owner? : Var → Option ClassId) (atClass : ClassId → σ → Term → σ → Prop)

mutual

/-- How a multiterm is read, one state leading to another, when `atClass` tells how the classes are. -/
inductive Multiterm.ReadsAs : Multiterm → σ → Term → σ → Prop
  | mk {f : Symbol} {args : List Cell} {us : List Term} {a b : σ} :
      Cell.ReadsAs args a us b → Multiterm.ReadsAs ⟨f, args⟩ a (.app f us) b

/-- How a list of cells is read from left to right: by the class of the first variable, or if there is
none by the multiterm. -/
inductive Cell.ReadsAs : List Cell → σ → List Term → σ → Prop
  | nil {a : σ} : Cell.ReadsAs [] a [] a
  | owned {c : Cell} {cells : List Cell} {v : Var} {id : ClassId} {u : Term} {us : List Term}
      {a b d : σ} : c.vars.front? = some v → owner? v = some id → atClass id a u b →
      Cell.ReadsAs cells b us d → Cell.ReadsAs (c :: cells) a (u :: us) d
  | nested {c : Cell} {cells : List Cell} {t : Multiterm} {u : Term} {us : List Term} {a b d : σ} :
      c.vars.front? = none → c.term = some t → Multiterm.ReadsAs t a u b →
      Cell.ReadsAs cells b us d → Cell.ReadsAs (c :: cells) a (u :: us) d

end

end

section

variable {σ α β : Type} {owner? : Var → Option ClassId} {R : ClassId → σ → Term → σ → Prop}
  {atClass : ClassId → StateM σ Term} {I : σ → Prop}

theorem Multiterm.readsAs_mk {f : Symbol} {args : List Cell} {a b : σ} {u : Term} :
    Multiterm.ReadsAs owner? R ⟨f, args⟩ a u b ↔
      ∃ us, Cell.ReadsAs owner? R args a us b ∧ u = .app f us := by
  constructor
  · rintro ⟨h⟩
    exact ⟨_, h, rfl⟩
  · rintro ⟨us, h, rfl⟩
    exact .mk h

theorem Cell.readsAs_nil {a b : σ} {us : List Term} :
    Cell.ReadsAs owner? R [] a us b ↔ us = [] ∧ b = a := by
  constructor
  · rintro ⟨⟩
    exact ⟨rfl, rfl⟩
  · rintro ⟨rfl, rfl⟩
    exact .nil

/-- A variable is read by the class that owns it. -/
theorem Cell.readsAs_var_cons {v : Var} {id : ClassId} (hid : owner? v = some id)
    {cells : List Cell} {a d : σ} {us : List Term} :
    Cell.ReadsAs owner? R (.var v :: cells) a us d ↔
      ∃ u b, R id a u b ∧ ∃ us', Cell.ReadsAs owner? R cells b us' d ∧ us = u :: us' := by
  constructor
  · intro h
    cases h with
    | @owned _ _ w o _ _ _ _ _ hfront ho hu hus =>
      obtain rfl : v = w := Option.some.inj hfront
      obtain rfl := Option.some.inj (hid.symm.trans ho)
      exact ⟨_, _, hu, _, hus, rfl⟩
    | nested hfront => cases hfront
  · rintro ⟨u, b, hu, us', hus, rfl⟩
    exact .owned rfl hid hu hus

/-- A multiterm in a cell is read where it stands. -/
theorem Cell.readsAs_nested_cons {t : Multiterm} {cells : List Cell} {a d : σ} {us : List Term} :
    Cell.ReadsAs owner? R (.nested t :: cells) a us d ↔
      ∃ u b, Multiterm.ReadsAs owner? R t a u b ∧
        ∃ us', Cell.ReadsAs owner? R cells b us' d ∧ us = u :: us' := by
  constructor
  · intro h
    cases h with
    | owned hfront => cases hfront
    | nested _ hterm hu hus =>
      obtain rfl := Option.some.inj hterm
      exact ⟨_, _, hu, _, hus, rfl⟩
  · rintro ⟨u, b, hu, us', hus, rfl⟩
    exact .nested rfl rfl hu hus

/-- Under the invariant `I` of the state the work does exactly what the relation says, and it keeps
the invariant. -/
def Performs (I : σ → Prop) (r : σ → α → σ → Prop) (x : StateM σ α) : Prop :=
  ∀ a, I a → I (x.run a).2 ∧ ∀ u b, r a u b ↔ x.run a = (u, b)

namespace Performs

theorem pure (I : σ → Prop) (u : α) :
    Performs I (fun a v b => v = u ∧ b = a) (pure u : StateM σ α) := by
  refine fun a ha => ⟨ha, fun v b => ?_⟩
  show v = u ∧ b = a ↔ (u, a) = (v, b)
  rw [Prod.mk.injEq, eq_comm, eq_comm (a := b)]

theorem bind {r : σ → β → σ → Prop} {r' : β → σ → α → σ → Prop} {x : StateM σ β}
    {f : β → StateM σ α} (hx : Performs I r x) (hf : ∀ u, Performs I (r' u) (f u)) :
    Performs I (fun a w d => ∃ u b, r a u b ∧ r' u b w d) (x >>= f) := by
  intro a ha
  obtain ⟨hb, hr⟩ := hx a ha
  obtain ⟨hd, hr'⟩ := hf (x.run a).1 _ hb
  refine ⟨hd, fun w d => ?_⟩
  show _ ↔ (f (x.run a).1).run (x.run a).2 = (w, d)
  rw [← hr']
  constructor
  · rintro ⟨u, b, hu, hw⟩
    rwa [(hr u b).1 hu]
  · exact fun hw => ⟨_, _, (hr _ _).2 rfl, hw⟩

theorem map {r : σ → β → σ → Prop} {x : StateM σ β} (hx : Performs I r x) (g : β → α) :
    Performs I (fun a w d => ∃ u, r a u d ∧ w = g u) (x >>= fun u => Pure.pure (g u)) := by
  intro a ha
  obtain ⟨hb, hr⟩ := hx a ha
  refine ⟨hb, fun w d => ?_⟩
  show _ ↔ (g (x.run a).1, (x.run a).2) = (w, d)
  constructor
  · rintro ⟨u, hu, rfl⟩
    rw [(hr u d).1 hu]
  · intro h
    obtain ⟨rfl, rfl⟩ := Prod.mk.inj h
    exact ⟨_, (hr _ _).2 rfl, rfl⟩

theorem congr {r r' : σ → α → σ → Prop} {x : StateM σ α} (hx : Performs I r x)
    (h : ∀ a u b, r' a u b ↔ r a u b) : Performs I r' x :=
  fun a ha => ⟨(hx a ha).1, fun u b => (h a u b).trans ((hx a ha).2 u b)⟩

end Performs

/-- If the work at the classes does what `R` says, so does reading a collapsed multiterm: it never
comes to a cell that holds nothing. -/
theorem Multiterm.Collapsed.performs_readM {t : Multiterm} (ht : t.Collapsed)
    (hclass : ∀ v ∈ t.vars, ∃ id, owner? v = some id ∧ Performs I (R id) (atClass id)) :
    Performs I (t.ReadsAs owner? R) (t.readM owner? atClass) := by
  refine ht.induction_vars (P := fun t =>
    Performs I (t.ReadsAs owner? R) (t.readM owner? atClass)) (fun f args h => ?_) hclass
  have hargs : Performs I (Cell.ReadsAs owner? R args) (Cell.readArgsM owner? atClass args) := by
    induction args with
    | nil => exact (Performs.pure I []).congr fun a us b => Cell.readsAs_nil
    | cons c cells ih =>
      rw [List.forall_mem_cons] at h
      -- a settled cell is one variable or one multiterm, so only one of the rules is for it
      obtain ⟨r, hcell, hreads⟩ : ∃ r, Performs I r (c.readM owner? atClass) ∧
          ∀ a us d, Cell.ReadsAs owner? R (c :: cells) a us d ↔ ∃ u b, r a u b ∧
            ∃ us', Cell.ReadsAs owner? R cells b us' d ∧ us = u :: us' := by
        rcases h.1 with ⟨v, rfl, id, hid, hv⟩ | ⟨s, rfl, hs⟩
        · refine ⟨R id, ?_, fun a us d => Cell.readsAs_var_cons hid⟩
          simpa [Cell.readM, Cell.var, Queue.front?, hid] using hv
        · exact ⟨_, hs, fun a us d => Cell.readsAs_nested_cons⟩
      rw [Cell.readArgsM_cons]
      exact (hcell.bind fun u => (ih h.2).map (u :: ·)).congr hreads
  rw [Multiterm.readM_mk]
  exact (hargs.map (Term.app f)).congr fun a u b => Multiterm.readsAs_mk

end

namespace Solution

open Multiequation.Partition

variable {s : Solution} {id : ClassId} {t : Multiterm} {u : Term} {v : Var} {memo memo' : Memo} {n : ℕ}

/-! ### The relations -/

/-- The listed term of a multiterm: members stand for the classes that it refers to. -/
def Renders (s : Solution) (t : Multiterm) (u : Term) : Prop :=
  t.ReadsAs s.form.partition.owner?
    (fun id (_ : Unit) w _ => ∃ v, (s.classAt id).canonical? = some v ∧ w = .var (s.vars.name v))
    () u ()

/-- The plain unfolding of a class: a class without a multiterm is the member that stands for it, and
every other one is its multiterm, with the unfolding of each class that this refers to. -/
inductive Unfolds (s : Solution) : ClassId → Term → Prop
  | free {id : ClassId} {v : Var} : (s.classAt id).term = none →
      (s.classAt id).canonical? = some v → Unfolds s id (.var (s.vars.name v))
  | applied {id : ClassId} {t : Multiterm} {u : Term} : (s.classAt id).term = some t →
      t.ReadsAs s.form.partition.owner? (fun id (_ : Unit) w _ => Unfolds s id w) () u () →
      Unfolds s id u

/-- The expansion of a class with a memo: what is in the memo is looked up, and what is not is
expanded like an unfolding and put into it. -/
inductive Expands (s : Solution) : ClassId → Memo → Term → Memo → Prop
  | known {id : ClassId} {memo : Memo} {u : Term} : memo.lookup id = some u →
      Expands s id memo u memo
  | free {id : ClassId} {memo : Memo} {v : Var} : memo.lookup id = none →
      (s.classAt id).term = none → (s.classAt id).canonical? = some v →
      Expands s id memo (.var (s.vars.name v)) ((id, .var (s.vars.name v)) :: memo)
  | applied {id : ClassId} {memo memo' : Memo} {t : Multiterm} {u : Term} :
      memo.lookup id = none → (s.classAt id).term = some t →
      t.ReadsAs s.form.partition.owner? (Expands s) memo u memo' →
      Expands s id memo u ((id, u) :: memo')

/-- A memo that earlier expansions of classes have left. -/
inductive Filled (s : Solution) : Memo → Prop
  | empty : Filled s []
  | expand {id : ClassId} {memo : Memo} : Filled s memo → id ∈ s.form.partition.liveClasses →
      Filled s ((s.expand id).run memo).2

theorem unfolds_of_none (ht : (s.classAt id).term = none) :
    s.Unfolds id u ↔ ∃ v, (s.classAt id).canonical? = some v ∧ u = .var (s.vars.name v) := by
  constructor
  · intro h
    cases h with
    | free _ hv => exact ⟨_, hv, rfl⟩
    | applied ht' => cases ht.symm.trans ht'
  · rintro ⟨v, hv, rfl⟩
    exact .free ht hv

theorem unfolds_of_some (ht : (s.classAt id).term = some t) : s.Unfolds id u ↔
    t.ReadsAs s.form.partition.owner? (fun id (_ : Unit) w _ => s.Unfolds id w) () u () := by
  constructor
  · intro h
    cases h with
    | free ht' => cases ht.symm.trans ht'
    | applied ht' hu =>
      obtain rfl := Option.some.inj (ht.symm.trans ht')
      exact hu
  · exact .applied ht

/-! ### Steps of the expansion -/

theorem run_expandWithin_of_lookup (hw : memo.lookup id = some u) :
    (s.expandWithin (n + 1) id).run memo = (u, memo) := by
  simp [expandWithin, hw]
  rfl

theorem run_expandWithin_of_none (hnone : memo.lookup id = none)
    (ht : (s.classAt id).term = none) : (s.expandWithin (n + 1) id).run memo =
      (s.canonicalVar id, (id, s.canonicalVar id) :: memo) := by
  simp [expandWithin, hnone, ht]
  rfl

theorem run_expandWithin_of_some (hnone : memo.lookup id = none)
    (ht : (s.classAt id).term = some t) {memo' : Memo}
    (hread : (t.readM s.form.partition.owner? (s.expandWithin n)).run memo = (u, memo')) :
    (s.expandWithin (n + 1) id).run memo = (u, (id, u) :: memo') := by
  simp [expandWithin, hnone, ht, hread]
  rfl

theorem expands_of_lookup {w : Term} (hw : memo.lookup id = some w) :
    s.Expands id memo u memo' ↔ (w, memo) = (u, memo') := by
  constructor
  · intro h
    cases h with
    | known hu => rw [Option.some.inj (hw.symm.trans hu)]
    | free hnone => cases hw.symm.trans hnone
    | applied hnone => cases hw.symm.trans hnone
  · intro h
    cases h
    exact .known hw

theorem expands_of_none (hnone : memo.lookup id = none) (ht : (s.classAt id).term = none) :
    s.Expands id memo u memo' ↔ ∃ v, (s.classAt id).canonical? = some v ∧
      u = .var (s.vars.name v) ∧ memo' = (id, u) :: memo := by
  constructor
  · intro h
    cases h with
    | known hu => cases hnone.symm.trans hu
    | free _ _ hv => exact ⟨_, hv, rfl, rfl⟩
    | applied _ ht' => cases ht.symm.trans ht'
  · rintro ⟨v, hv, rfl, rfl⟩
    exact .free hnone ht hv

theorem expands_of_some (hnone : memo.lookup id = none) (ht : (s.classAt id).term = some t) :
    s.Expands id memo u memo' ↔ ∃ memo'', t.ReadsAs s.form.partition.owner? s.Expands memo u memo'' ∧
      memo' = (id, u) :: memo'' := by
  constructor
  · intro h
    cases h with
    | known hu => cases hnone.symm.trans hu
    | free _ ht' => cases ht.symm.trans ht'
    | applied _ ht' hu =>
      obtain rfl := Option.some.inj (ht.symm.trans ht')
      exact ⟨_, hu, rfl⟩
  · rintro ⟨memo'', hu, rfl⟩
    exact .applied hnone ht hu

namespace Solved

/-- Reading a multiterm of a solved form comes to no cell that it has no rule for. -/
theorem performs_readM (h : s.Solved) {σ : Type} {I : σ → Prop}
    {R : ClassId → σ → Term → σ → Prop} (atClass : ClassId → StateM σ Term)
    (hid : id ∈ s.form.order) (ht : (s.classAt id).term = some t)
    (hclass : ∀ o ∈ s.form.order, s.depth o < s.depth id → Performs I (R o) (atClass o)) :
    Performs I (t.ReadsAs s.form.partition.owner? R) (t.readM s.form.partition.owner? atClass) := by
  refine (h.closed.collapsed id hid t ht).performs_readM fun v hv => ?_
  obtain ⟨o, ho⟩ := h.exists_owner?_of_mem ht hv
  exact ⟨o, ho, hclass o (h.owner_mem_order ho) (h.depth_lt hid ht hv ho)⟩

/-- Reading off what stands for each class is a matter of the multiterm and the classes alone. -/
theorem readsAs_iff_eq_read (h : s.Solved) {R : ClassId → Term → Prop} {g : ClassId → Term}
    (hid : id ∈ s.form.order) (ht : (s.classAt id).term = some t)
    (hclass : ∀ o ∈ s.form.order, s.depth o < s.depth id → ∀ w, R o w ↔ w = g o) :
    t.ReadsAs s.form.partition.owner? (fun o (_ : Unit) w _ => R o w) () u () ↔
      u = t.read s.form.partition.owner? g := by
  have hperforms := h.performs_readM (I := fun _ : Unit => True)
    (R := fun o _ w _ => R o w) (fun o => pure (g o)) hid ht fun o ho hlt =>
      (Performs.pure _ (g o)).congr fun _ w _ => by simp [hclass o ho hlt w]
  have hyields : Yields (fun _ : Unit => True)
      (t.readM s.form.partition.owner? fun o => pure (g o)) (t.read s.form.partition.owner? g) :=
    t.yields_readM fun _ _ o _ => .pure (g o)
  rw [(hperforms () trivial).2, Prod.ext_iff, (hyields () trivial).1]
  simp [eq_comm]

/-- The plain unfolding of a class is its full term and nothing else. -/
theorem unfolds_iff (h : s.Solved) (hid : id ∈ s.form.order) : s.Unfolds id u ↔ u = s.value id := by
  induction hn : s.depth id using Nat.strong_induction_on generalizing id u with
  | _ n ih =>
    cases ht : (s.classAt id).term with
    | none =>
      obtain ⟨v, -, -, hcanonical, hvalue⟩ := h.exists_canonical_of_none hid ht
      rw [unfolds_of_none ht, hvalue, hcanonical]
      simp
    | some t =>
      rw [unfolds_of_some ht, h.value_some hid ht]
      exact h.readsAs_iff_eq_read hid ht fun o ho hlt w => ih _ (hn ▸ hlt) ho rfl

/-- The listed term of a class is rendered from its multiterm. -/
theorem renders_iff (h : s.Solved) (hid : id ∈ s.form.order)
    (ht : (s.classAt id).term = some t) : s.Renders t u ↔ u = s.render t := by
  refine h.readsAs_iff_eq_read hid ht fun o ho _ w => ?_
  obtain ⟨v, -, hv⟩ := h.proper.exists_owner (h.closed.live o ho)
  obtain ⟨c, -, -, hcanonical, hvar⟩ := h.exists_canonical hv
  rw [hcanonical, hvar]
  simp

/-- From the depth of a class on, the bounded expansion makes the steps of the expansion. -/
theorem performs_expandWithin (h : s.Solved) (hid : id ∈ s.form.order) (hn : s.depth id ≤ n) :
    Performs s.MemoValid (s.Expands id) (s.expandWithin n id) := by
  induction n generalizing id with
  | zero =>
    have := depth_pos hid
    omega
  | succ n ih =>
    intro memo hmemo
    refine ⟨(h.yields_expandWithin hid hn memo hmemo).2, fun u memo' => ?_⟩
    cases hl : memo.lookup id with
    | some w => rw [expands_of_lookup hl, run_expandWithin_of_lookup hl]
    | none =>
      cases ht : (s.classAt id).term with
      | none =>
        obtain ⟨v, -, -, hcanonical, -⟩ := h.exists_canonical_of_none hid ht
        rw [expands_of_none hl ht, run_expandWithin_of_none hl ht, hcanonical, canonicalVar,
          canonicalName, hcanonical]
        grind
      | some t =>
        have hread := h.performs_readM (s.expandWithin n) hid ht
          (fun o ho hlt => ih ho (by omega)) memo hmemo
        obtain ⟨w, memo'', hrun⟩ : ∃ w memo'',
            (t.readM s.form.partition.owner? (s.expandWithin n)).run memo = (w, memo'') :=
          ⟨_, _, rfl⟩
        rw [expands_of_some hl ht, run_expandWithin_of_some hl ht hrun]
        simp only [hread.2, hrun]
        constructor
        · rintro ⟨_, ⟨⟩, rfl⟩
          rfl
        · rintro ⟨⟩
          exact ⟨_, rfl, rfl⟩

/-- Expanding a class makes the steps of the expansion. -/
theorem performs_expand (h : s.Solved) (hid : id ∈ s.form.order) :
    Performs s.MemoValid (s.Expands id) (s.expand id) := by
  have hdepth := s.depth_le id
  have hlength := h.order_length_le
  exact h.performs_expandWithin hid (by omega)

theorem memoValid_of_filled (h : s.Solved) (hmemo : s.Filled memo) : s.MemoValid memo := by
  induction hmemo with
  | empty => exact s.memoValid_nil
  | expand _ hid ih => exact (h.yields_expand (h.mem_order _ hid) _ ih).2

/-- Whatever has been expanded before, expanding a class ends with its plain unfolding. -/
theorem exists_expands (h : s.Solved) (hid : id ∈ s.form.order) (hmemo : s.Filled memo) :
    ∃ u memo', (s.expand id).run memo = (u, memo') ∧ s.Expands id memo u memo' ∧
      ∀ w, s.Unfolds id w ↔ w = u := by
  have hvalid := h.memoValid_of_filled hmemo
  obtain ⟨u, memo', hrun⟩ : ∃ u memo', (s.expand id).run memo = (u, memo') := ⟨_, _, rfl⟩
  refine ⟨u, memo', hrun, ((h.performs_expand hid memo hvalid).2 _ _).2 hrun, fun w => ?_⟩
  have hvalue := (h.yields_expand hid memo hvalid).1
  rw [hrun] at hvalue
  rw [h.unfolds_iff hid, ← hvalue]

/-! ### The order of the variables -/

/-- A variable is bound by its name. -/
theorem fst_eq_of_binding? {b : String × Term} (h : s.binding? v = some b) :
    b.1 = s.vars.name v := by
  rw [binding?] at h
  split at h
  · cases h
  · split_ifs at h
    exact (congrArg Prod.fst (Option.some.inj h)).symm

/-- The variables can be visited in any order, with any memo. -/
theorem ofList_bindings (h : s.Solved) {vs : List Var} (hvs : vs.Perm s.vars.written)
    (hmemo : s.Filled memo) :
    Substitution.ofList ((s.bindings vs).run memo).1 = s.substitution := by
  rw [(h.yields_bindings vs memo (h.memoValid_of_filled hmemo)).1, h.substitution_eq]
  refine Substitution.ofList_perm (hvs.filterMap s.binding?) ?_
  have hnames : s.vars.written.map s.vars.name = s.vars.names :=
    List.ext_getElem (by simp [Variables.written]) fun i _ hi => by
      simp [Variables.written, Variables.name_eq (v := ⟨i⟩) hi]
  have hnodup : (vs.map s.vars.name).Nodup := by
    rw [(hvs.map _).nodup_iff, hnames]
    exact h.names_nodup
  -- different variables have different names
  rw [List.Nodup, List.pairwise_map] at hnodup ⊢
  rw [List.pairwise_filterMap]
  refine hnodup.imp fun hne b hb b' hb' => ?_
  rwa [fst_eq_of_binding? hb, fst_eq_of_binding? hb']

end Solved

end Solution

end Multiequation
