import Multiequation.Proofs.Multiterm.Description
import Multiequation.Proofs.Multiterm.Shape
import Multiequation.Solution

/-!
# Reading multiterms back

A multiterm is read back with a term for each class that it refers to. Reading with work that yields
these terms is the same as reading with the terms, replacing variables in them replaces variables in
the result, and the term that a collapsed multiterm is read back to is the one that it describes.
-/

namespace Multiequation

/-! ### Work with a state -/

/-- Under the invariant `I` of the state the work yields `a`, and it keeps the invariant. -/
def Yields {σ α : Type} (I : σ → Prop) (x : StateM σ α) (a : α) : Prop :=
  ∀ s, I s → (x.run s).1 = a ∧ I (x.run s).2

namespace Yields

variable {σ α β : Type} {I : σ → Prop}

theorem pure (a : α) : Yields I (pure a : StateM σ α) a := fun _ hs => ⟨rfl, hs⟩

theorem bind {x : StateM σ β} {f : β → StateM σ α} {b : β} {a : α} (hx : Yields I x b)
    (hf : Yields I (f b) a) : Yields I (x >>= f) a := by
  intro s hs
  obtain ⟨hb, hs'⟩ := hx s hs
  have h := hf _ hs'
  rw [← hb] at h
  exact h

theorem get {f : σ → StateM σ α} {a : α}
    (h : ∀ s, I s → ((f s).run s).1 = a ∧ I ((f s).run s).2) :
    Yields I (MonadState.get >>= f) a := h

theorem modify {f : σ → σ} (h : ∀ s, I s → I (f s)) :
    Yields I (modify f : StateM σ PUnit) ⟨⟩ := fun s hs => ⟨rfl, h s hs⟩

end Yields

section

variable {owner? : Var → Option ClassId} {g : ClassId → Term}

/-- The term of a cell, with `atClass` for each class it refers to. -/
def Cell.readM {m : Type → Type} [Monad m] (owner? : Var → Option ClassId)
    (atClass : ClassId → m Term) (c : Cell) : m Term :=
  match c.vars.front?.bind owner? with
  | some id => atClass id
  | none => Multiterm.readOptionM owner? atClass c.term

/-- The term of a cell, with a term for each class it refers to. -/
def Cell.read (owner? : Var → Option ClassId) (g : ClassId → Term) (c : Cell) : Term :=
  match c.vars.front?.bind owner? with
  | some id => g id
  | none =>
    match c.term with
    | none => .var "_"
    | some t => t.read owner? g

theorem Multiterm.readM_mk {m : Type → Type} [Monad m] (atClass : ClassId → m Term) (f : Symbol)
    (args : List Cell) : Multiterm.readM owner? atClass ⟨f, args⟩ =
      Cell.readArgsM owner? atClass args >>= fun ts => pure (.app f ts) := rfl

theorem Cell.readArgsM_cons {m : Type → Type} [Monad m] (atClass : ClassId → m Term) (c : Cell)
    (cells : List Cell) : Cell.readArgsM owner? atClass (c :: cells) =
      c.readM owner? atClass >>= fun first => Cell.readArgsM owner? atClass cells >>= fun rest =>
        pure (first :: rest) := by
  obtain ⟨vs, t⟩ := c
  simp only [Cell.readArgsM, Cell.readM]
  cases vs.front?.bind owner? <;> rfl

theorem Cell.readArgsM_id (cells : List Cell) :
    Id.run (Cell.readArgsM owner? (fun id => pure (g id)) cells) =
      cells.map (Cell.read owner? g) := by
  induction cells with
  | nil => rfl
  | cons c cells ih =>
    rw [Cell.readArgsM_cons, List.map_cons, ← ih, Cell.read, Cell.readM]
    cases c.vars.front?.bind owner? with
    | some id => rfl
    | none =>
      cases c.term with
      | none => rfl
      | some t => rfl

/-- A multiterm is read cell by cell. -/
theorem Multiterm.read_mk (f : Symbol) (args : List Cell) :
    Multiterm.read owner? g ⟨f, args⟩ = .app f (args.map (Cell.read owner? g)) := by
  rw [← Cell.readArgsM_id]
  rfl

/-- Reading with work that yields the terms of classes yields the term of the multiterm. -/
theorem Multiterm.yields_readM {σ : Type} {I : σ → Prop} {atClass : ClassId → StateM σ Term}
    (t : Multiterm)
    (h : ∀ v ∈ t.vars, ∀ id, owner? v = some id → Yields I (atClass id) (g id)) :
    Yields I (t.readM owner? atClass) (t.read owner? g) := by
  induction t using Multiterm.induction with
  | mk f args ih =>
    have hargs : Yields I (Cell.readArgsM owner? atClass args)
        (args.map (Cell.read owner? g)) := by
      rw [Multiterm.vars_mk] at h
      induction args with
      | nil => exact .pure []
      | cons c cells ihcells =>
        rw [List.forall_mem_cons] at ih
        rw [Cell.varsOfArgs_cons, List.forall_mem_append, List.forall_mem_append] at h
        obtain ⟨⟨hvars, hterm⟩, hrest⟩ := h
        rw [Cell.readArgsM_cons, List.map_cons]
        refine Yields.bind ?_ (Yields.bind (ihcells ih.2 hrest) (.pure _))
        rw [Cell.read, Cell.readM]
        cases hfront : c.vars.front?.bind owner? with
        | some id =>
          obtain ⟨v, hv, hid⟩ := Option.bind_eq_some_iff.1 hfront
          exact hvars v (List.mem_of_head? hv) id hid
        | none =>
          cases ht : c.term with
          | none => exact .pure _
          | some t => exact ih.1 t ht (by rwa [ht] at hterm)
    rw [Multiterm.readM_mk, Multiterm.read_mk]
    exact hargs.bind (.pure _)

/-- The term of a multiterm depends on the classes that it refers to only. -/
theorem Multiterm.read_congr {g' : ClassId → Term} (t : Multiterm)
    (h : ∀ v ∈ t.vars, ∀ id, owner? v = some id → g id = g' id) :
    t.read owner? g = t.read owner? g' := by
  have hread : Yields (fun _ : Unit => True) (t.readM owner? fun id => pure (g id))
      (t.read owner? g) := t.yields_readM fun _ _ id _ => .pure _
  have hread' : Yields (fun _ : Unit => True) (t.readM owner? fun id => pure (g id))
      (t.read owner? g') := t.yields_readM fun v hv id hid => h v hv id hid ▸ .pure _
  exact (hread () trivial).1.symm.trans (hread' () trivial).1

/-! ### Collapsed multiterms -/

theorem Cell.read_var {v : Var} {id : ClassId} (h : owner? v = some id) :
    (var v).read owner? g = g id := by
  simp [read, var, Queue.front?, h]

theorem Cell.read_nested (t : Multiterm) : (nested t).read owner? g = t.read owner? g := by
  simp [read, nested, Queue.front?]

/-- Replacing variables in what a multiterm is read back to replaces them in the terms of classes. -/
theorem Multiterm.Collapsed.bind_read {t : Multiterm} (ht : t.Collapsed)
    (howner : ∀ v ∈ t.vars, ∃ id, owner? v = some id) (θ : String → Term) :
    (t.read owner? g).bind θ = t.read owner? fun id => (g id).bind θ := by
  refine ht.induction_vars (P := fun t => (t.read owner? g).bind θ =
    t.read owner? fun id => (g id).bind θ) (fun f args h => ?_) howner
  rw [read_mk, read_mk, Term.bind_app, List.map_map]
  refine congrArg _ (List.map_congr_left fun c hc => ?_)
  obtain ⟨v, rfl, id, hid⟩ | ⟨s, rfl, hs⟩ := h c hc
  · rw [Function.comp_apply, Cell.read_var hid, Cell.read_var hid]
  · rw [Function.comp_apply, Cell.read_nested, Cell.read_nested, hs]

/-- The variables of the term that a collapsed multiterm is read back to are those of the terms of
the classes that it refers to. -/
theorem Multiterm.Collapsed.mem_vars_read {t : Multiterm} (ht : t.Collapsed)
    (howner : ∀ v ∈ t.vars, ∃ id, owner? v = some id) {x : String} :
    x ∈ (t.read owner? g).vars ↔ ∃ v ∈ t.vars, ∃ id, owner? v = some id ∧ x ∈ (g id).vars := by
  refine ht.induction_vars (P := fun t => x ∈ (t.read owner? g).vars ↔
    ∃ v ∈ t.vars, ∃ id, owner? v = some id ∧ x ∈ (g id).vars) (fun f args h => ?_) howner
  have hcell : ∀ c ∈ args, x ∈ (Cell.read owner? g c).vars ↔
      ∃ v, (v ∈ c.vars.toList ∨ v ∈ varsOfOption c.term) ∧
        ∃ id, owner? v = some id ∧ x ∈ (g id).vars := by
    intro c hc
    obtain ⟨v, rfl, id, hid⟩ | ⟨s, rfl, hs⟩ := h c hc
    · rw [Cell.read_var hid]
      simp [Cell.var, hid]
    · rw [Cell.read_nested, hs]
      simp [Cell.nested]
  rw [read_mk, Term.vars_app, List.flatMap_map, List.mem_flatMap, vars_mk]
  constructor
  · rintro ⟨c, hc, hx⟩
    obtain ⟨v, hv, hid⟩ := (hcell c hc).1 hx
    exact ⟨v, Cell.mem_varsOfArgs.2 ⟨c, hc, hv⟩, hid⟩
  · rintro ⟨v, hv, hid⟩
    obtain ⟨c, hc, hv⟩ := Cell.mem_varsOfArgs.1 hv
    exact ⟨c, hc, (hcell c hc).2 ⟨v, hv, hid⟩⟩

/-- The term that a collapsed multiterm is read back to describes what the multiterm describes, if
the terms of the classes describe the values of the variables. -/
theorem Multiterm.Collapsed.describes_read {M : Domain} {v : String → M.Object}
    {w : Var → M.Object} {t : Multiterm} (ht : t.Collapsed)
    (hval : ∀ u ∈ t.vars, ∃ id, owner? u = some id ∧ ∀ d, (g id).Describes M v d ↔ w u = d)
    {d : M.Object} : (t.read owner? g).Describes M v d ↔ t.Describes M w d := by
  revert d
  refine ht.induction_vars (P := fun t => ∀ {d : M.Object},
    (t.read owner? g).Describes M v d ↔ t.Describes M w d) (fun f args h d => ?_) hval
  have hargs : ∀ ds, List.Forall₂ (Term.Describes M v) (args.map (Cell.read owner? g)) ds ↔
      List.Forall₂ (Cell.Describes M w) args ds := by
    refine fun ds => List.forall₂_map_left_iff.trans (forall₂_congr_mem fun c hc e => ?_)
    obtain ⟨u, rfl, id, hid, hg⟩ | ⟨s, rfl, hs⟩ := h c hc
    · rw [Cell.read_var hid, hg, Cell.describes_var]
    · rw [Cell.read_nested, hs, Cell.describes_nested]
  simp only [read_mk, Term.describes_app, Term.describeAll_iff, describes_mk, hargs]

/-- Among the terms, a collapsed multiterm describes the term that it is read back to. -/
theorem Multiterm.Collapsed.describes_terms_iff {t : Multiterm} (ht : t.Collapsed)
    {w : Var → Term} (hval : ∀ v ∈ t.vars, ∃ id, owner? v = some id ∧ g id = w v) {d : Term} :
    t.Describes .terms w d ↔ t.read owner? g = d := by
  have hself : ∀ {s e : Term}, s.Describes .terms Term.var e ↔ s = e := by
    intro s e
    rw [Term.describes_terms_iff, Term.bind_self]
  rw [← hself, ht.describes_read (w := w)]
  intro u hu
  obtain ⟨id, hid, hg⟩ := hval u hu
  exact ⟨id, hid, fun e => by rw [hself, hg]⟩

end

end Multiequation
