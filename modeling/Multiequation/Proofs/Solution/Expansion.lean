import Multiequation.Proofs.Pool.Open
import Multiequation.Proofs.Solution.Reading

/-!
# Expanding the classes of a solution

In a solved form a class refers to classes discharged later only, so every class has a full term.
Expanding a class with a memo yields this term: what has been expanded before is looked up, and the
depth that is allowed is never used up.
-/

namespace Multiequation.Solution

open Multiequation.Partition

/-- All classes have been discharged, each before the classes it refers to. -/
structure Solved (s : Solution) : Prop where
  proper : s.form.partition.Proper s.vars.names.length
  closed : s.form.partition.Closed s.form.order
  mem_order : ∀ id ∈ s.form.partition.liveClasses, id ∈ s.form.order
  names_nodup : s.vars.names.Nodup

variable {s : Solution} {id : ClassId} {t : Multiterm} {u v : Var} {n m : ℕ}

/-- The term of a class, in which the classes it refers to are replaced at most `n` deep. -/
def valueWithin (s : Solution) : ℕ → ClassId → Term
  | 0, id => s.canonicalVar id
  | n + 1, id =>
    match (s.classAt id).term with
    | none => s.canonicalVar id
    | some t => t.read s.form.partition.owner? (s.valueWithin n)

/-- The full term of a class. -/
def value (s : Solution) (id : ClassId) : Term :=
  s.valueWithin s.form.order.length id

/-- How many classes were discharged from a class on. -/
def depth (s : Solution) (id : ClassId) : ℕ :=
  s.form.order.length - s.form.order.idxOf id

theorem depth_pos (hid : id ∈ s.form.order) : 0 < s.depth id :=
  Nat.sub_pos_of_lt (List.idxOf_lt_length_of_mem hid)

theorem depth_le (s : Solution) (id : ClassId) : s.depth id ≤ s.form.order.length :=
  Nat.sub_le _ _

namespace Solved

theorem owner_mem_order (h : s.Solved) (hv : s.form.partition.owner? v = some id) :
    id ∈ s.form.order :=
  h.mem_order id (h.proper.owner_mem_liveClasses hv)

theorem vars_lt (h : s.Solved) (ht : (s.classAt id).term = some t) (hv : v ∈ t.vars) :
    v.index < s.vars.names.length :=
  h.proper.vars_lt (Multiterm.mem_varsOfOption.2 ⟨t, ht, hv⟩)

theorem exists_owner?_of_mem (h : s.Solved) (ht : (s.classAt id).term = some t) (hv : v ∈ t.vars) :
    ∃ o, s.form.partition.owner? v = some o :=
  h.proper.exists_owner?_of_lt (h.vars_lt ht hv)

/-- The classes that a class refers to are less deep. -/
theorem depth_lt (h : s.Solved) (hid : id ∈ s.form.order) (ht : (s.classAt id).term = some t)
    (hv : v ∈ t.vars) {o : ClassId} (ho : s.form.partition.owner? v = some o) :
    s.depth o < s.depth id := by
  have hmem := h.owner_mem_order ho
  have hlater := h.closed.later id hid v (Multiterm.mem_varsOfOption.2 ⟨t, ht, hv⟩) o hmem ho
  have := List.idxOf_lt_length_of_mem hmem
  rw [depth, depth]
  omega

/-- From the depth of a class on it does not matter how deep is replaced. -/
theorem valueWithin_eq (h : s.Solved) (hid : id ∈ s.form.order) (hn : s.depth id ≤ n)
    (hm : s.depth id ≤ m) : s.valueWithin n id = s.valueWithin m id := by
  have hpos := depth_pos hid
  induction n generalizing id m with
  | zero => omega
  | succ n ih =>
    obtain ⟨m, rfl⟩ := Nat.exists_eq_add_one_of_ne_zero (show m ≠ 0 by omega)
    rw [valueWithin, valueWithin]
    cases ht : (s.classAt id).term with
    | none => rfl
    | some t =>
      refine t.read_congr fun v hv o ho => ?_
      have hlt := h.depth_lt hid ht hv ho
      have hmem := h.owner_mem_order ho
      exact ih hmem (by omega) (by omega) (depth_pos hmem)

theorem value_none (h : s.Solved) (hid : id ∈ s.form.order) (ht : (s.classAt id).term = none) :
    s.value id = s.canonicalVar id := by
  have hle := s.depth_le id
  rw [value, h.valueWithin_eq hid hle (hle.trans (Nat.le_succ _)), valueWithin, ht]

/-- The full term of a class with a multiterm is read off it. -/
theorem value_some (h : s.Solved) (hid : id ∈ s.form.order) (ht : (s.classAt id).term = some t) :
    s.value id = t.read s.form.partition.owner? s.value := by
  have hle := s.depth_le id
  rw [value, h.valueWithin_eq hid hle (hle.trans (Nat.le_succ _)), valueWithin, ht]
  rfl

end Solved

/-- The binding of a variable, unless it stands for its class. -/
def binding? (s : Solution) (v : Var) : Option (String × Term) :=
  match s.form.partition.owner? v with
  | none => none
  | some id =>
    if (s.classAt id).term.isNone ∧ (s.classAt id).canonical? = some v then none
    else some (s.vars.name v, s.value id)

theorem binding?_eq (hid : s.form.partition.owner? v = some id) : s.binding? v =
    if (s.classAt id).term.isNone ∧ (s.classAt id).canonical? = some v then none
    else some (s.vars.name v, s.value id) := by
  rw [binding?, hid]

/-! ### The memo -/

/-- Every entry of the memo is the full term of its class. -/
def MemoValid (s : Solution) (memo : Memo) : Prop :=
  ∀ id term, memo.lookup id = some term → term = s.value id

theorem memoValid_nil (s : Solution) : s.MemoValid [] := nofun

theorem MemoValid.cons {memo : Memo} (h : s.MemoValid memo) :
    s.MemoValid ((id, s.value id) :: memo) := by
  intro j term hj
  by_cases hji : j = id
  · subst hji
    rw [List.lookup_cons_self] at hj
    exact (Option.some.inj hj).symm
  · rw [List.lookup_cons, beq_false_of_ne hji] at hj
    exact h j term hj

namespace Solved

/-- Expanding a class yields its full term. -/
theorem yields_expandWithin (h : s.Solved) (hid : id ∈ s.form.order) (hn : s.depth id ≤ n) :
    Yields s.MemoValid (s.expandWithin n id) (s.value id) := by
  induction n generalizing id with
  | zero =>
    have := depth_pos hid
    omega
  | succ n ih =>
    rw [expandWithin]
    refine Yields.get fun memo hmemo => ?_
    cases hl : memo.lookup id with
    | some term =>
      obtain rfl := hmemo id term hl
      exact ⟨rfl, hmemo⟩
    | none =>
      have hstore : Yields s.MemoValid
          (modify ((id, s.value id) :: ·) >>= fun _ => pure (s.value id)) (s.value id) :=
        Yields.bind (.modify fun _ h => h.cons) (.pure _)
      cases ht : (s.classAt id).term with
      | none =>
        have hterm : Yields s.MemoValid (pure (s.canonicalVar id)) (s.value id) := by
          rw [h.value_none hid ht]
          exact .pure _
        exact hterm.bind hstore memo hmemo
      | some t =>
        have hterm : Yields s.MemoValid (t.readM s.form.partition.owner? (s.expandWithin n))
            (s.value id) := by
          rw [h.value_some hid ht]
          refine t.yields_readM fun v hv o ho => ih (h.owner_mem_order ho) ?_
          have := h.depth_lt hid ht hv ho
          omega
        exact hterm.bind hstore memo hmemo

/-- There are at most as many discharged classes as records. -/
theorem order_length_le (h : s.Solved) :
    s.form.order.length ≤ s.form.partition.records.size := by
  have hsub : s.form.order ⊆ s.form.partition.liveClasses := h.closed.live
  have hlive : s.form.partition.liveClasses.length ≤ s.form.partition.records.size := by
    refine (List.length_filter_le _ _).trans ?_
    simp
  exact ((List.subperm_of_subset h.closed.nodup hsub).length_le).trans hlive

theorem yields_expand (h : s.Solved) (hid : id ∈ s.form.order) :
    Yields s.MemoValid (s.expand id) (s.value id) := by
  have hdepth := s.depth_le id
  have hlength := h.order_length_le
  exact h.yields_expandWithin hid (by omega)

/-! ### The bindings -/

theorem yields_bindings (h : s.Solved) (vs : List Var) :
    Yields s.MemoValid (s.bindings vs) (vs.filterMap s.binding?) := by
  induction vs with
  | nil => exact .pure []
  | cons v vs ih =>
    rw [bindings, List.filterMap_cons, binding?]
    cases hown : s.form.partition.owner? v with
    | none => exact ih
    | some id =>
      dsimp only
      split_ifs
      · exact ih
      · exact (h.yields_expand (h.owner_mem_order hown)).bind (ih.bind (.pure _))

end Solved

end Multiequation.Solution
