import Multiequation.Proofs.Solution.Generality

/-!
# What the listed classes say

The listed classes of a solution are read as equations between written variables and terms over them.
These say what the solved form says. The classes of hidden variables are not listed, but they have
multiterms, which are over written variables; so where every symbol can be applied, a value for their
members can be found.
-/

namespace Multiequation

namespace SolvedClass

/-- A class read as equations: every member equals the first one, and the first one equals the
term. -/
def equations (c : SolvedClass) : List Equation :=
  match c.members with
  | [] => []
  | x :: _ => c.members.map (⟨.var ·, .var x⟩) ++ c.term.toList.map (⟨.var x, ·⟩)

/-- The members of a class have one value, and its term describes this value. -/
theorem holds_equations_iff {c : SolvedClass} (hc : c.members ≠ []) {M : Domain}
    {v : String → M.Object} : (∀ e ∈ c.equations, e.Holds M v) ↔
      ∃ d, (∀ x ∈ c.members, v x = d) ∧ ∀ t, c.term = some t → t.Describes M v d := by
  obtain ⟨members, term⟩ := c
  obtain ⟨x, rest, rfl⟩ := List.exists_cons_of_ne_nil hc
  have hfirst : (∀ e ∈ equations ⟨x :: rest, term⟩, e.Holds M v) ↔
      (∀ y ∈ x :: rest, v x = v y) ∧ ∀ t, term = some t → t.Describes M v (v x) := by
    simp only [equations, List.forall_mem_append, List.forall_mem_map, Equation.holds_var_left,
      Term.describes_var, Option.mem_toList]
  rw [hfirst]
  constructor
  · rintro ⟨hmembers, hterm⟩
    exact ⟨v x, fun y hy => (hmembers y hy).symm, hterm⟩
  · rintro ⟨d, hmembers, hterm⟩
    obtain rfl := hmembers x List.mem_cons_self
    exact ⟨fun y hy => (hmembers y hy).symm, hterm⟩

end SolvedClass

namespace Solution

open Multiequation.Partition

variable {s : Solution} {id : ClassId} {u v : Var} {x : String} {M : Domain}

/-! ### The list -/

/-- The class behind `id` as it is listed if it has written members. -/
def listing (s : Solution) (id : ClassId) : SolvedClass :=
  ⟨(s.writtenMembers (s.classAt id)).map s.vars.name, (s.classAt id).term.map s.render⟩

theorem classes_eq (s : Solution) : s.classes = s.form.order.filterMap fun id =>
    if (s.listing id).members = [] then none else some (s.listing id) := by
  rw [classes, SolvedForm.classes, List.filterMap_map]
  refine List.filterMap_congr fun id _ => ?_
  show s.solvedClass? (s.classAt id) = _
  rw [solvedClass?, listing]
  cases s.writtenMembers (s.classAt id) <;> rfl

theorem mem_classes {c : SolvedClass} :
    c ∈ s.classes ↔ ∃ id ∈ s.form.order, (s.listing id).members ≠ [] ∧ s.listing id = c := by
  simp [classes_eq]

theorem mem_writtenMembers {cls : Class} :
    v ∈ s.writtenMembers cls ↔ v ∈ cls.members.toList ∧ v.index < s.vars.names.length := by
  have hindex : ∀ vs : List Var, v ∈ (vs.map Var.index).map Var.mk ↔ v ∈ vs := by simp
  rw [writtenMembers, List.mem_map]
  simp only [List.mem_mergeSort]
  rw [← List.mem_map, hindex, List.mem_filter]
  simp [Variables.isHidden]

/-- Where every symbol can be applied, each class has a value if the listed ones have. -/
theorem exists_value (hM : M.IsTotal) {v : String → M.Object}
    (hv : ∀ c ∈ s.classes, ∀ e ∈ c.equations, e.Holds M v) (id : ClassId) : ∃ d : M.Object,
      id ∈ s.form.order → (∀ x ∈ (s.listing id).members, v x = d) ∧
        ∀ t, (s.listing id).term = some t → t.Describes M v d := by
  by_cases hne : (s.listing id).members = []
  · -- nothing is listed of a class of hidden variables, so its term may choose the value
    rw [hne]
    cases ht : (s.listing id).term with
    | none => exact ⟨v "", fun _ => ⟨nofun, nofun⟩⟩
    | some t =>
      obtain ⟨d, hd⟩ := t.exists_describes hM v
      refine ⟨d, fun _ => ⟨nofun, ?_⟩⟩
      rintro _ ⟨⟩
      exact hd
  · by_cases hid : id ∈ s.form.order
    · obtain ⟨d, hd⟩ := (SolvedClass.holds_equations_iff hne).1
        (hv _ (mem_classes.2 ⟨id, hid, hne, rfl⟩))
      exact ⟨d, fun _ => hd⟩
    · exact ⟨v "", fun hmem => absurd hmem hid⟩

namespace Solved

theorem mem_writtenMembers_iff (h : s.Solved) (hid : id ∈ s.form.order) :
    v ∈ s.writtenMembers (s.classAt id) ↔
      s.form.partition.owner? v = some id ∧ v.index < s.vars.names.length := by
  rw [mem_writtenMembers, classAt, h.proper.mem_members_of_live (h.closed.live id hid)]

/-- The listed members of a class are the names of the written variables that it owns. -/
theorem mem_listing_iff (h : s.Solved) (hid : id ∈ s.form.order) :
    x ∈ (s.listing id).members ↔
      x ∈ s.vars.names ∧ s.form.partition.owner? (s.vars.number x) = some id := by
  rw [listing, List.mem_map]
  constructor
  · rintro ⟨v, hv, rfl⟩
    obtain ⟨hown, hlt⟩ := (h.mem_writtenMembers_iff hid).1 hv
    rw [s.vars.number_name h.names_nodup hlt]
    exact ⟨Variables.name_mem hlt, hown⟩
  · rintro ⟨hx, hown⟩
    exact ⟨_, (h.mem_writtenMembers_iff hid).2 ⟨hown, Variables.number_lt hx⟩,
      Variables.name_number hx⟩

/-- The members of a class are listed in the order of their numbers, each once. -/
theorem pairwise_listing (h : s.Solved) (hid : id ∈ s.form.order) :
    (s.listing id).members.Pairwise fun x y =>
      (s.vars.number x).index < (s.vars.number y).index := by
  have hsorted : (s.writtenMembers (s.classAt id)).Pairwise fun u v => u.index < v.index := by
    have hnodup : ((s.classAt id).members.toList.map Var.index).Nodup :=
      (h.proper.members_nodup id).map fun u v huv => by cases u; cases v; congr
    rw [writtenMembers, List.pairwise_map]
    refine (List.sortedLE_mergeSort.sortedLT_of_nodup ?_).pairwise
    exact (List.mergeSort_perm _ _).nodup_iff.2 (hnodup.sublist (List.filter_sublist.map Var.index))
  rw [listing, List.pairwise_map]
  refine hsorted.imp_of_mem fun hu hv huv => ?_
  rwa [s.vars.number_name h.names_nodup ((h.mem_writtenMembers_iff hid).1 hu).2,
    s.vars.number_name h.names_nodup ((h.mem_writtenMembers_iff hid).1 hv).2]

theorem exists_owner?_of_name (h : s.Solved) (hx : x ∈ s.vars.names) :
    ∃ id ∈ s.form.order, s.form.partition.owner? (s.vars.number x) = some id := by
  obtain ⟨id, hid⟩ := h.proper.exists_owner?_of_lt (Variables.number_lt hx)
  exact ⟨id, h.owner_mem_order hid, hid⟩

theorem exists_class (h : s.Solved) (hx : x ∈ s.vars.names) : ∃ c ∈ s.classes, x ∈ c.members := by
  obtain ⟨id, hid, hown⟩ := h.exists_owner?_of_name hx
  have hmem := (h.mem_listing_iff hid).2 ⟨hx, hown⟩
  exact ⟨_, mem_classes.2 ⟨id, hid, List.ne_nil_of_mem hmem, rfl⟩, hmem⟩

/-- A written variable is a member of one listed class. -/
theorem filter_classes (h : s.Solved) (hx : x ∈ s.vars.names)
    (hown : s.form.partition.owner? (s.vars.number x) = some id) :
    s.classes.filter (x ∈ ·.members) = [s.listing id] := by
  have hid := h.owner_mem_order hown
  have hhit : ∀ j ∈ s.form.order, ((if (s.listing j).members = [] then none
      else some (s.listing j)).filter fun c => x ∈ c.members) =
        if j = id then some (s.listing j) else none := by
    intro j hj
    have hmem : x ∈ (s.listing j).members ↔ j = id := by
      rw [h.mem_listing_iff hj, hown, Option.some.injEq, eq_comm, and_iff_right hx]
    by_cases hji : j = id
    · have hxj := hmem.2 hji
      rw [if_neg (List.ne_nil_of_mem hxj), if_pos hji, Option.filter_some, decide_eq_true hxj,
        if_pos rfl]
    · have hxj : x ∉ (s.listing j).members := fun hxj => hji (hmem.1 hxj)
      split_ifs <;> simp [hxj]
  have hone : s.form.order.filter (· = id) = [id] := by
    rw [List.filter_eq, List.count_eq_one_of_mem h.closed.nodup hid, List.replicate_one]
  calc s.classes.filter (x ∈ ·.members)
      = s.form.order.filterMap fun j => if j = id then some (s.listing j) else none := by
        rw [classes_eq, List.filter_filterMap, List.filterMap_congr hhit]
    _ = (s.form.order.filter (· = id)).map s.listing := by
        rw [← List.filterMap_eq_map, List.filterMap_filter]
        simp only [decide_eq_true_eq, Function.comp_apply]
    _ = [s.listing id] := by rw [hone, List.map_singleton]

/-! ### The terms -/

/-- A multiterm is over written variables, and written members stand for the classes of these. -/
theorem exists_canonical_of_mem (h : s.Solved) {t : Multiterm}
    (ht : (s.classAt id).term = some t) (hv : v ∈ t.vars) : ∃ o u,
      s.form.partition.owner? v = some o ∧ s.form.partition.owner? u = some o ∧
      u.index < s.vars.names.length ∧ s.canonicalVar o = .var (s.vars.name u) := by
  obtain ⟨o, ho⟩ := h.exists_owner?_of_mem ht hv
  obtain ⟨u, hle, hu, -, hvar⟩ := h.exists_canonical ho
  exact ⟨o, u, ho, hu, hle.trans_lt (h.vars_lt ht hv), hvar⟩

/-- The listed term of a class describes what its multiterm describes. -/
theorem describes_render (h : s.Solved) (hid : id ∈ s.form.order) {t : Multiterm}
    (ht : (s.classAt id).term = some t) {v : String → M.Object} {w : Var → M.Object}
    (hw : ∀ x ∈ s.vars.names, w (s.vars.number x) = v x)
    (hclass : ∀ {a b o}, s.form.partition.owner? a = some o → s.form.partition.owner? b = some o →
      w a = w b) {d : M.Object} : (s.render t).Describes M v d ↔ t.Describes M w d := by
  refine (h.closed.collapsed id hid t ht).describes_read fun a ha => ?_
  obtain ⟨o, u, ho, hu, hlt, hvar⟩ := h.exists_canonical_of_mem ht ha
  refine ⟨o, ho, fun d => ?_⟩
  rw [hvar, Term.describes_var, ← hw _ (Variables.name_mem hlt),
    s.vars.number_name h.names_nodup hlt, hclass hu ho]

/-- The listed terms are over listed members. -/
theorem mem_names_of_mem_render (h : s.Solved) (hid : id ∈ s.form.order) {t : Multiterm}
    (ht : (s.classAt id).term = some t) (hx : x ∈ (s.render t).vars) : x ∈ s.vars.names := by
  obtain ⟨v, hv, o, ho, hxo⟩ := ((h.closed.collapsed id hid t ht).mem_vars_read fun v hv =>
    h.exists_owner?_of_mem ht hv).1 hx
  obtain ⟨o', u, ho', -, hlt, hvar⟩ := h.exists_canonical_of_mem ht hv
  obtain rfl := Option.some.inj (ho.symm.trans ho')
  rw [hvar, Term.vars_var, List.mem_singleton] at hxo
  exact hxo ▸ Variables.name_mem hlt

/-! ### The equations -/

/-- The listed classes hold of values of which the solved form is true. -/
theorem holds_classes (h : s.Solved) {v : String → M.Object} {w : Var → M.Object}
    (hw : ∀ x ∈ s.vars.names, w (s.vars.number x) = v x) (ha : Asserts M w s.form.partition) :
    ∀ c ∈ s.classes, ∀ e ∈ c.equations, e.Holds M v := by
  intro c hc
  obtain ⟨id, hid, hne, rfl⟩ := mem_classes.1 hc
  obtain ⟨x, hx⟩ := List.exists_mem_of_ne_nil _ hne
  obtain ⟨hxn, hown⟩ := (h.mem_listing_iff hid).1 hx
  refine (SolvedClass.holds_equations_iff hne).2 ⟨v x, fun y hy => ?_, fun t ht => ?_⟩
  · obtain ⟨hyn, hyown⟩ := (h.mem_listing_iff hid).1 hy
    rw [← hw y hyn, ← hw x hxn, ha.eq hyown hown]
  · obtain ⟨t, hterm, rfl⟩ := Option.map_eq_some_iff.1 ht
    rw [h.describes_render hid hterm hw fun hu hv => ha.eq hu hv, ← hw x hxn]
    have hdesc := ha.term hown
    rwa [show (s.form.partition.classAt id).term = some t from hterm,
      Multiterm.optionDescribes_some] at hdesc

/-- Values of which the listed classes hold belong to values of which the solved form is true. -/
theorem exists_asserts (h : s.Solved) (hM : M.IsTotal) {v : String → M.Object}
    (hv : ∀ c ∈ s.classes, ∀ e ∈ c.equations, e.Holds M v) : ∃ w : Var → M.Object,
      (∀ x ∈ s.vars.names, w (s.vars.number x) = v x) ∧ Asserts M w s.form.partition := by
  choose value hvalue using exists_value hM hv
  -- every variable, hidden or not, gets the value of its class
  let w := fun u => value ((s.form.partition.owner? u).getD ⟨0⟩)
  have hw : ∀ {u id}, s.form.partition.owner? u = some id → w u = value id := by
    intro u id hu
    simp only [w, hu, Option.getD_some]
  have hnames : ∀ x ∈ s.vars.names, w (s.vars.number x) = v x := by
    intro x hx
    obtain ⟨id, hid, hown⟩ := h.exists_owner?_of_name hx
    rw [hw hown, (hvalue id hid).1 x ((h.mem_listing_iff hid).2 ⟨hx, hown⟩)]
  refine ⟨w, hnames, fun {u id} hu => ⟨fun u' hu' => by rw [hw hu, hw hu'], ?_⟩⟩
  have hid := h.owner_mem_order hu
  cases ht : (s.form.partition.classAt id).term with
  | none => simp
  | some t =>
    have hdesc := (hvalue id hid).2 (s.render t) (congrArg (Option.map s.render) ht)
    rw [hw hu, Multiterm.optionDescribes_some]
    exact (h.describes_render hid ht hnames fun ha hb => by rw [hw ha, hw hb]).1 hdesc

end Solved

end Solution

end Multiequation
