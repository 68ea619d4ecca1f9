import Multiequation.Proofs.System.Records

/-!
# What a pool is built from

The pool of a system has a class for each class of variables that the equations between variables
equate. The multiterm of a class is the merge of all applications that are laid out in it, its pending
count is the number of occurrences of its variables inside applications, and the classes without such
an occurrence are ready. Building the pool fails exactly when two applications that are laid out in one
class disagree.
-/

namespace Multiequation

open AnchoredSide Multiequation.Partition

variable {number : String → Var} {next : ℕ} {E : List Equation} {e : Equation} {u v : Var}
  {s : AnchoredSide}

/-! ### The equations and their sides -/

/-- The occurrences of variables strictly inside the sides. -/
def Equation.innerVars (e : Equation) : List String :=
  e.left.innerVars ++ e.right.innerVars

/-- The sides of a system with their anchors; the hidden variables come behind the written ones. -/
def sidesOf (vars : Variables) (E : List Equation) : List AnchoredSide :=
  anchoredSides vars.number vars.names.length E

/-- The least equivalence in which the two sides of each equation between variables are equivalent. -/
def VarsEquated (number : String → Var) (E : List Equation) : Var → Var → Prop :=
  Relation.EqvGen fun u v => ∃ x y, ⟨.var x, .var y⟩ ∈ E ∧ u = number x ∧ v = number y

/-- The hidden variables are numbered in the order of the equations that they are anchors of. -/
theorem mem_anchoredSides : s ∈ anchoredSides number next E ↔ ∃ i, ∃ e : Equation,
    E[i]? = some e ∧ s ∈ e.anchoredSides number (next + (E.take i).countP Equation.isAnchorless) := by
  induction E generalizing next with
  | nil => simp [anchoredSides]
  | cons e E ih =>
    have hnext : ∀ i, e.nextHidden next + (E.take i).countP Equation.isAnchorless =
        next + ((e :: E).take (i + 1)).countP Equation.isAnchorless := by
      intro i
      rw [List.take_succ_cons, List.countP_cons, Equation.nextHidden]
      split_ifs <;> omega
    simp only [anchoredSides, List.mem_append, ih, hnext]
    constructor
    · rintro (hs | ⟨i, e', he', hs⟩)
      · exact ⟨0, e, rfl, hs⟩
      · exact ⟨i + 1, e', he', hs⟩
    · rintro ⟨_ | i, e', he', hs⟩
      · cases he'
        exact .inl hs
      · exact .inr ⟨i, e', he', hs⟩

theorem flatMap_anchoredSides : ((anchoredSides number next E).flatMap fun s => s.term.innerVars) =
    E.flatMap Equation.innerVars := by
  induction E generalizing next with
  | nil => rfl
  | cons e E ih =>
    rw [anchoredSides, List.flatMap_append, ih, List.flatMap_cons]
    simp [Equation.anchoredSides, Equation.innerVars]

/-- Only an equation between two variables has an alias other than its anchor. -/
theorem aliased_anchoredSides :
    Aliased number (anchoredSides number next E) u v ↔ VarsEquated number E u v := by
  constructor
  · intro h
    induction h with
    | rel u v huv =>
      obtain ⟨x, hx, rfl⟩ := huv
      obtain ⟨i, ⟨left, right⟩, he, hx⟩ := mem_anchoredSides.1 hx
      simp only [Equation.anchoredSides, List.mem_cons, List.not_mem_nil, or_false,
        AnchoredSide.mk.injEq] at hx
      -- the variable is its own anchor unless the other side is a variable, too
      obtain ⟨rfl, rfl⟩ | ⟨rfl, rfl⟩ := hx
      · exact .refl _
      · cases left with
        | var y => exact .rel _ _ ⟨y, x, List.mem_of_getElem? he, rfl, rfl⟩
        | app f args => exact .refl _
    | refl u => exact .refl u
    | symm u v _ ih => exact .symm u v ih
    | trans u v w _ _ ih ih' => exact .trans u v w ih ih'
  · refine Relation.EqvGen.mono ?_ u v
    rintro u v ⟨x, y, he, rfl, rfl⟩
    obtain ⟨i, hi⟩ := List.getElem?_of_mem he
    have hside : ⟨number x, .var y⟩ ∈ Equation.anchoredSides number
        (next + (E.take i).countP Equation.isAnchorless) ⟨.var x, .var y⟩ := by
      simp [Equation.anchoredSides, Equation.anchor]
    exact ⟨y, mem_anchoredSides.2 ⟨i, _, hi, hside⟩, rfl⟩

namespace Draft

variable {draft : Draft} {L : List AnchoredSide} {anchor : Var}

/-! ### Adding sides -/

/-- Adding a side records it, unless it makes two sides disagree. -/
theorem addSide_records (h : Records draft.vars.number L draft.partition)
    (hanchor : anchor.index < draft.partition.varCount) (side : Term)
    (hside : ∀ x ∈ side.vars, (draft.vars.number x).index < draft.partition.varCount) :
    Ends (addSide anchor side) draft
      (fun _ d => d.vars = draft.vars ∧ d.partition.varCount = draft.partition.varCount ∧
        Records draft.vars.number (L ++ [⟨anchor, side⟩]) d.partition)
      fun _ _ => Disagreeing draft.vars.number (L ++ [⟨anchor, side⟩]) := by
  have hwell := h.proper.toWellFormed
  obtain ⟨root, hroot⟩ := h.proper.exists_owner?_of_lt hanchor
  cases side with
  | var x =>
    obtain ⟨other, hother⟩ := h.proper.exists_owner?_of_lt (hside x (by simp))
    refine (addSide_var_unites hwell hroot hother).mono ?_ ?_
    · rintro _ d ⟨hvars, ⟨rfl, hq⟩ | ⟨id, hq⟩⟩
      · exact ⟨hvars, hq.varCount, h.of_similar hroot hother hq⟩
      · have hrecords := h.of_unites hq
        obtain ⟨_, _, _, _, _, _, hq⟩ := hq
        exact ⟨hvars, hq.varCount, hrecords⟩
    · rintro _ _ ⟨plan, c, hjoins, -, hm⟩
      exact h.disagreeing_of_joins hjoins hm
  | app f args =>
    refine (addSide_app_ends hwell hroot f args).mono ?_ ?_
    · rintro _ d ⟨hvars, m, hm, hq⟩
      exact ⟨hvars, hq.varCount, h.of_commit hroot (by simpa using hside) hm hq⟩
    · rintro _ _ ⟨c, -, hm⟩
      exact h.disagreeing_of_commit hroot hm

/-- The draft records the sides `L`, and all its variables are named. -/
structure Recorded (L : List AnchoredSide) (draft : Draft) : Prop where
  varCount : draft.partition.varCount = draft.vars.size
  records : Records draft.vars.number L draft.partition

/-- The variables when an equation has been added. -/
def varsAfter (vars : Variables) (e : Equation) : Variables :=
  { vars with hidden := e.nextHidden vars.hidden }

theorem size_varsAfter (vars : Variables) (e : Equation) :
    (varsAfter vars e).size = e.nextHidden vars.size := by
  rw [varsAfter, Variables.size, Variables.size, Equation.nextHidden, Equation.nextHidden]
  split_ifs <;> rfl

namespace Recorded

/-- An anchor is a written variable or one that is created. -/
theorem anchorOf_ends (h : Recorded L draft) (he : ∀ x ∈ e.vars, x ∈ draft.vars.names)
    {R : Failure → Draft → Prop} :
    Ends (anchorOf e) draft (fun u d => u = e.anchor draft.vars.number draft.vars.size ∧
      u.index < d.vars.size ∧ d.vars = varsAfter draft.vars e ∧ Recorded L d) R := by
  have hlt : ∀ x ∈ e.vars, (draft.vars.number x).index < draft.vars.size := fun x hx =>
    (Variables.number_lt (he x hx)).trans_le (Nat.le_add_right _ _)
  obtain ⟨left, right⟩ := e
  cases left with
  | var x =>
    refine ends_get_bind ?_
    exact ends_pure ⟨rfl, hlt x (by simp [Equation.vars]), rfl, h⟩
  | app f args =>
    cases right with
    | var x =>
      refine ends_get_bind ?_
      exact ends_pure ⟨rfl, hlt x (by simp [Equation.vars]), rfl, h⟩
    | app g rights =>
      have hext := h.records.proper.linked.extended_freshVar
      refine ends_modifyGet ⟨congrArg Var.mk h.varCount, ?_, rfl, ?_, h.records.of_extended hext⟩
      · exact h.varCount.trans_lt (Nat.lt_succ_self _)
      · exact hext.varCount.trans (congrArg Nat.succ h.varCount)

/-- Adding an equation records both its sides, unless it makes two sides disagree. -/
theorem addEquation_ends (h : Recorded L draft) (he : ∀ x ∈ e.vars, x ∈ draft.vars.names) :
    Ends (addEquation e) draft
      (fun _ d => d.vars = varsAfter draft.vars e ∧
        Recorded (L ++ e.anchoredSides draft.vars.number draft.vars.size) d)
      fun _ _ => Disagreeing draft.vars.number
        (L ++ e.anchoredSides draft.vars.number draft.vars.size) := by
  refine Ends.bind (h.anchorOf_ends he) ?_
  rintro u d ⟨hu, hlt, hvars, hcount, hrecords⟩
  have hnumber : d.vars.number = draft.vars.number := by
    rw [hvars]
    exact Variables.number_congr rfl
  have hnames : d.vars.names = draft.vars.names := by rw [hvars]; rfl
  have hside : ∀ x ∈ e.vars, (d.vars.number x).index < d.partition.varCount := by
    intro x hx
    rw [hcount]
    exact (Variables.number_lt (hnames ▸ he x hx)).trans_le (Nat.le_add_right _ _)
  rw [Equation.vars, List.forall_mem_append] at hside
  have hsides : e.anchoredSides draft.vars.number draft.vars.size =
      [⟨u, e.left⟩] ++ [⟨u, e.right⟩] := by
    rw [hu]
    rfl
  rw [hsides, ← List.append_assoc, ← hnumber]
  refine Ends.bind ((addSide_records hrecords (hcount ▸ hlt) e.left hside.1).mono (fun _ _ h => h)
    fun _ _ h => h.mono (List.subset_append_left _ _)) ?_
  rintro _ d₁ ⟨hvars₁, hcount₁, hrecords₁⟩
  rw [← hvars₁] at hrecords₁ hside ⊢
  rw [← hcount₁] at hside
  have hlt₁ : u.index < d₁.partition.varCount := by rwa [hcount₁, hcount]
  refine (addSide_records hrecords₁ hlt₁ e.right hside.2).mono ?_ fun _ _ h => h
  rintro _ d₂ ⟨hvars₂, hcount₂, hrecords₂⟩
  refine ⟨by rw [hvars₂, hvars₁, hvars], ?_, by rwa [hvars₂]⟩
  rw [hcount₂, hcount₁, hcount, hvars₂, hvars₁]

/-- The variables when all equations have been added. -/
theorem forM_ends (h : Recorded L draft) (hE : ∀ e ∈ E, ∀ x ∈ e.vars, x ∈ draft.vars.names) :
    Ends (E.forM addEquation) draft
      (fun _ d => d.vars = { draft.vars with
          hidden := draft.vars.hidden + E.countP Equation.isAnchorless } ∧
        Recorded (L ++ anchoredSides draft.vars.number draft.vars.size E) d)
      fun _ _ => Disagreeing draft.vars.number
        (L ++ anchoredSides draft.vars.number draft.vars.size E) := by
  -- the sides that have been recorded so far carry the induction on the equations still to come
  induction E generalizing draft L with
  | nil => exact ends_pure ⟨rfl, by rwa [anchoredSides, List.append_nil]⟩
  | cons e E ih =>
    rw [List.forall_mem_cons] at hE
    rw [anchoredSides, ← List.append_assoc]
    refine Ends.bind ((h.addEquation_ends hE.1).mono (fun _ _ h => h) fun _ _ h =>
      h.mono (List.subset_append_left _ _)) ?_
    rintro _ d ⟨hvars, hd⟩
    have hnames : d.vars.names = draft.vars.names := by rw [hvars]; rfl
    have hrest := ih hd (hnames ▸ hE.2)
    rw [Variables.number_congr hnames, hvars, size_varsAfter] at hrest
    refine hrest.mono ?_ fun _ _ h => h
    rintro _ d' ⟨hvars', hd'⟩
    refine ⟨?_, hd'⟩
    rw [hvars', List.countP_cons, varsAfter, Equation.nextHidden]
    split_ifs
    · rw [Nat.add_right_comm, Nat.add_assoc]
    · rfl

end Recorded

/-! ### Laying out a system -/

theorem records_foldl_freshVar (names : List String) {p : Partition} (h : Records number L p) :
    Records number L (names.foldl (fun p _ => p.freshVar.2) p) := by
  induction names generalizing p with
  | nil => exact h
  | cons _ names ih => exact ih (h.of_extended h.proper.linked.extended_freshVar)

theorem recorded_start (E : List Equation) : Recorded [] (start E) where
  varCount := by
    obtain ⟨-, hcount, -⟩ := proper_foldl_freshVar (Variables.ofEquations E).names proper_start
    exact hcount.trans (Nat.add_comm _ _)
  records := records_foldl_freshVar _ .start

/-- A layout records the sides of the system, and its pending counts are right. -/
theorem layOut_records (E : List Equation) :
    Ends (layOut E) (start E)
      (fun _ d => d.vars = ⟨(Variables.ofEquations E).names, E.countP Equation.isAnchorless⟩ ∧
        Recorded (sidesOf (Variables.ofEquations E) E) d ∧
        ∀ id ∈ d.partition.liveClasses, (d.partition.classAt id).pending =
          d.partition.occurrencesOf id d.partition.occurrences)
      fun _ _ => Disagreeing (Variables.ofEquations E).number
        (sidesOf (Variables.ofEquations E) E) := by
  have hadd := (recorded_start E).forM_ends (E := E) fun e he x hx =>
    Variables.mem_ofEquations.2 ⟨e, he, hx⟩
  refine (layOut_ends_of_forM hadd fun d h => ⟨_, h.2.records.proper⟩).mono ?_ fun _ _ h => h
  rintro _ d ⟨d₀, g, ⟨hvars₀, hcount, hrecords⟩, hvars, hq, hpending⟩
  refine ⟨?_, ⟨?_, ?_⟩, hpending⟩
  · rw [hvars, hvars₀]
    exact congrArg (Variables.mk _) (Nat.zero_add _)
  · rw [hvars, hq.varCount, hcount]
  · rw [hvars]
    exact hrecords.of_repriced hq

end Draft

/-! ### The pool of a system -/

/-- Two sides that are laid out in one class disagree. -/
def SidesDisagree (E : List Equation) : Prop :=
  let vars := Variables.ofEquations E
  ∃ s ∈ sidesOf vars E, ∃ t ∈ sidesOf vars E,
    VarsEquated vars.number E s.anchor t.anchor ∧ s.term.Disagree t.term

/-- The pool holds what the equations say: the written variables are numbered by first occurrence, with
a hidden variable behind them for each equation without a variable side; the classes are those of the
variables that are equated; the multiterm of a class is, but for the order of variables, the merge of
the applications laid out in it, the pending count the number of occurrences of its variables inside
applications, and the classes without such an occurrence are ready. -/
structure BuiltFrom (E : List Equation) (pool : Pool) (vars : Variables) : Prop where
  names_nodup : vars.names.Nodup
  mem_names : ∀ x, x ∈ vars.names ↔ ∃ e ∈ E, x ∈ e.vars
  names_order : ∀ x y, vars.names.idxOf x < vars.names.idxOf y ↔
    (E.flatMap Equation.vars).idxOf x < (E.flatMap Equation.vars).idxOf y
  hidden_eq : vars.hidden = E.countP Equation.isAnchorless
  varCount_eq : pool.partition.varCount = vars.size
  owned_iff : ∀ v, (∃ id ∈ pool.partition.liveClasses, pool.partition.owner? v = some id) ↔
    v.index < vars.size
  exists_member : ∀ id ∈ pool.partition.liveClasses, ∃ v, pool.partition.owner? v = some id
  mem_members : ∀ id ∈ pool.partition.liveClasses, ∀ v,
    v ∈ (pool.partition.classAt id).members.toList ↔ pool.partition.owner? v = some id
  owner_iff : ∀ u v id, pool.partition.owner? u = some id →
    (pool.partition.owner? v = some id ↔ VarsEquated vars.number E u v)
  term_merged : ∀ id ∈ pool.partition.liveClasses, ∃ m, Multiterm.mergeAll
      (multitermsOf vars.number (sidesOf vars E) pool.partition id) = .ok m ∧
    Cell.Reordered ⟨.empty, m⟩ ⟨.empty, (pool.partition.classAt id).term⟩
  term_eq_none_iff : ∀ id ∈ pool.partition.liveClasses, (pool.partition.classAt id).term = none ↔
    multitermsOf vars.number (sidesOf vars E) pool.partition id = []
  pending_eq : ∀ id ∈ pool.partition.liveClasses, (pool.partition.classAt id).pending =
    (E.flatMap Equation.innerVars).countP fun x =>
      vars.number x ∈ (pool.partition.classAt id).members.toList
  mem_ready : ∀ id, id ∈ pool.ready.toList ↔
    id ∈ pool.partition.liveClasses ∧ (pool.partition.classAt id).pending = 0
  ready_ascending : pool.ready.toList.Pairwise fun a b => a.index < b.index
  remaining_eq : pool.remaining = pool.partition.liveClasses.length

theorem sidesDisagree_iff : SidesDisagree E ↔ Disagreeing (Variables.ofEquations E).number
    (sidesOf (Variables.ofEquations E) E) := by
  simp only [SidesDisagree, Disagreeing, sidesOf, aliased_anchoredSides]

/-- The pool of a draft that records the sides of a system. -/
theorem Draft.Recorded.builtFrom {d : Draft} (h : Recorded (sidesOf (Variables.ofEquations E) E) d)
    (hvars : d.vars = ⟨(Variables.ofEquations E).names, E.countP Equation.isAnchorless⟩)
    (hpending : ∀ id ∈ d.partition.liveClasses, (d.partition.classAt id).pending =
      d.partition.occurrencesOf id d.partition.occurrences) :
    BuiltFrom E (.ofPartition d.partition d.journal) d.vars := by
  obtain ⟨hcount, hrecords⟩ := h
  have hsides : sidesOf d.vars E = sidesOf (Variables.ofEquations E) E := by rw [hvars]; rfl
  rw [← hsides] at hrecords
  have hproper := hrecords.proper
  have hnames : d.vars.names = (Variables.ofEquations E).names := by rw [hvars]
  exact {
    names_nodup := hnames ▸ Variables.nodup_ofEquations E
    mem_names := fun x => hnames ▸ Variables.mem_ofEquations
    names_order := fun x y => hnames ▸ Variables.idxOf_eraseDups_lt_iff _
    hidden_eq := by rw [hvars]
    varCount_eq := hcount
    owned_iff := fun v => by
      rw [← hcount, ← owner?_isSome_iff]
      exact exists_congr fun id => and_iff_right_of_imp hproper.owner_mem_liveClasses
    exists_member := fun id hid => by
      obtain ⟨v, -, hv⟩ := hproper.exists_owner hid
      exact ⟨v, hv⟩
    mem_members := fun id hid v => hproper.mem_members_of_live hid
    owner_iff := fun u v id hu => by
      rw [← aliased_anchoredSides]
      exact hrecords.owner?_eq_some_iff hu
    term_merged := fun id hid => Multiterm.reordered_of_gathers (hrecords.gathers id hid)
    term_eq_none_iff := fun id hid => Multiterm.eq_none_iff_of_gathers (hrecords.gathers id hid)
    pending_eq := fun id hid => by
      have hperm := hrecords.occurrences
      rw [sidesOf, flatMap_anchoredSides] at hperm
      refine (hpending id hid).trans ((occurrencesOf_perm hperm id).trans ?_)
      rw [occurrencesOf, List.countP_map]
      refine List.countP_congr fun x _ => ?_
      simp [hproper.mem_members_of_live hid, Pool.ofPartition]
    mem_ready := fun id => by simp [Pool.ofPartition]
    ready_ascending := d.partition.pairwise_liveClasses.filter _
    remaining_eq := rfl }

/-- A pool that is built holds what the equations say, and building it fails exactly when two sides
that are laid out in one class disagree. -/
theorem buildPool_exact (E : List Equation) :
    (∃ pool vars, buildPool E = .ok (pool, vars) ∧ BuiltFrom E pool vars ∧ ¬ SidesDisagree E) ∨
    ∃ e, buildPool E = .error e ∧ SidesDisagree E := by
  have hlayout := Draft.layOut_records E
  rw [sidesDisagree_iff, buildPool]
  cases hrun : Draft.layOut E (Draft.start E) with
  | ok a d =>
    obtain ⟨hvars, hrecorded, hpending⟩ := hlayout.of_ok hrun
    refine .inl ⟨_, _, rfl, hrecorded.builtFrom hvars hpending, ?_⟩
    have hnot := hrecorded.records.not_disagreeing
    rwa [hvars] at hnot
  | error e d => exact .inr ⟨e, rfl, hlayout.of_error hrun⟩

end Multiequation
