import Multiequation.Proofs.Partition.Description
import Multiequation.Proofs.Variables
import Multiequation.System

/-!
# What a layout says

A system of equations is laid out in a partition that says what the equations say: it holds of the
values of the written variables exactly when, with some values of the hidden variables, the equations
do. When the layout stops at a clash, the equations hold in domains that have a clash only.
-/

namespace Multiequation

variable {M : Domain} {number : String → Var} {n : ℕ}

/-! ### The cells of terms -/

theorem Cell.ofTerms_eq_map (ts : List Term) :
    Cell.ofTerms number ts = ts.map (Cell.ofTerm number) := by
  induction ts with
  | nil => rfl
  | cons t ts ih => rw [Cell.ofTerms, ih, List.map_cons]

/-- The multiterm of an application. -/
theorem Cell.ofTerm_app (f : Symbol) (args : List Term) :
    Cell.ofTerm number (.app f args) = .nested ⟨f, args.map (Cell.ofTerm number)⟩ := by
  rw [Cell.ofTerm, Cell.ofTerms_eq_map]

theorem Cell.isOccupied_ofTerm (t : Term) : (Cell.ofTerm number t).IsOccupied := by
  cases t with
  | var x => exact .inl (by simp [Cell.ofTerm, Cell.var])
  | app f args => exact .inr rfl

theorem Cell.filled_ofTerm (t : Term) :
    ∀ s, (Cell.ofTerm number t).term = some s → s.Filled := by
  induction t using Term.induction with
  | var x => exact nofun
  | app f args ih =>
    rw [Cell.ofTerm_app]
    rintro _ ⟨⟩
    refine Multiterm.allCells_mk.2 fun c hc => ?_
    obtain ⟨t, ht, rfl⟩ := List.mem_map.1 hc
    exact ⟨Cell.isOccupied_ofTerm t, ih t ht⟩

theorem Cell.filled_app (f : Symbol) (args : List Term) :
    Multiterm.Filled ⟨f, args.map (Cell.ofTerm number)⟩ := by
  have h : ∀ s, (Cell.ofTerm number (.app f args)).term = some s → s.Filled :=
    Cell.filled_ofTerm (.app f args)
  rw [Cell.ofTerm_app] at h
  exact h _ rfl

/-- The occurrences in the cells of terms are those in the terms. -/
theorem Cell.varsOfArgs_ofTerm (ts : List Term) :
    Cell.varsOfArgs (ts.map (Cell.ofTerm number)) = (ts.flatMap Term.vars).map number := by
  have hsingle : ∀ t : Term, (Cell.ofTerm number t).vars.toList ++
      Multiterm.varsOfOption (Cell.ofTerm number t).term = t.vars.map number := by
    intro t
    induction t using Term.induction with
    | var x => simp [Cell.ofTerm, Cell.var]
    | app f args ih =>
      rw [Cell.ofTerm_app]
      simp only [Cell.nested, Queue.toList_empty, List.nil_append, Multiterm.varsOfOption_some,
        Multiterm.vars_mk, Term.vars_app]
      induction args with
      | nil => rfl
      | cons t ts ihts =>
        rw [List.forall_mem_cons] at ih
        rw [List.map_cons, Cell.varsOfArgs_cons, ih.1, ihts ih.2, List.flatMap_cons, List.map_append]
  induction ts with
  | nil => rfl
  | cons t ts ih =>
    rw [List.map_cons, Cell.varsOfArgs_cons, hsingle, ih, List.flatMap_cons, List.map_append]

/-- The occurrences in the multiterm of an application are those in the application. -/
theorem Cell.vars_app (f : Symbol) (args : List Term) :
    Multiterm.vars ⟨f, args.map (Cell.ofTerm number)⟩ = (Term.app f args).vars.map number := by
  rw [Multiterm.vars_mk, Cell.varsOfArgs_ofTerm, Term.vars_app]

/-- The cell of a term describes what the term describes. -/
theorem Cell.describes_ofTerm {w : Var → M.Object} (t : Term) {d : M.Object} :
    (Cell.ofTerm number t).Describes M w d ↔ t.Describes M (fun x => w (number x)) d := by
  induction t using Term.induction generalizing d with
  | var x => rw [Cell.ofTerm, Cell.describes_var, Term.describes_var]
  | app f args ih =>
    have hargs : ∀ ds, List.Forall₂ (Cell.Describes M w) (args.map (Cell.ofTerm number)) ds ↔
        List.Forall₂ (Term.Describes M fun x => w (number x)) args ds := fun ds =>
      List.forall₂_map_left_iff.trans (forall₂_congr_mem fun t ht e => ih t ht)
    rw [Cell.ofTerm_app, Cell.describes_nested, Multiterm.describes_mk, Term.describes_app]
    simp only [hargs, Term.describeAll_iff]

theorem Cell.describes_app {w : Var → M.Object} {f : Symbol} {args : List Term} {d : M.Object} :
    Multiterm.Describes M w ⟨f, args.map (Cell.ofTerm number)⟩ d ↔
      (Term.app f args).Describes M (fun x => w (number x)) d := by
  rw [← Cell.describes_ofTerm, Cell.ofTerm_app, Cell.describes_nested]

namespace Draft

open Multiequation.Partition

variable {draft : Draft} {anchor : Var} {root : ClassId}

/-! ### Adding one side of an equation -/

theorem findOwner_ends {R : Failure → Draft → Prop} (hp : draft.partition.Linked)
    (hroot : draft.partition.owner? anchor = some root) :
    Ends (onPartition (findOwner anchor)) draft
      (fun id d => id = root ∧ d.vars = draft.vars ∧ Similar draft.partition d.partition) R :=
  lift_ends ((hp.findOwner_ends hroot).safe fun _ _ h => ⟨h.1, rfl, h.2⟩)

/-- An application is committed to the class of the anchor. -/
theorem addSide_app_ends (hp : draft.partition.WellFormed)
    (hroot : draft.partition.owner? anchor = some root) (f : Symbol) (args : List Term) :
    Ends (addSide anchor (.app f args)) draft
      (fun _ d => d.vars = draft.vars ∧ ∃ m, Multiterm.mergeOption
        (draft.partition.classAt root).term
        (some ⟨f, args.map (Cell.ofTerm draft.vars.number)⟩) = .ok m ∧
        Updated draft.partition d.partition root
          { draft.partition.classAt root with term := m })
      fun e _ => ∃ c, e = .clash c ∧ Multiterm.mergeOption (draft.partition.classAt root).term
        (some ⟨f, args.map (Cell.ofTerm draft.vars.number)⟩) = .error c := by
  obtain ⟨hlt, hresolve⟩ := hp.owner_live hroot
  refine ends_get_bind ?_
  refine Ends.bind (findOwner_ends hp.linked hroot) ?_
  rintro _ d ⟨rfl, hvars, hq⟩
  rename_i root
  dsimp only
  rw [Cell.ofTerms_eq_map]
  have hcommit := hq.linked.commit_ends (by rwa [hq.size])
    ⟨f, args.map (Cell.ofTerm draft.vars.number)⟩
  rw [hq.classAt, hq.resolve, hresolve] at hcommit
  refine lift_ends (hcommit.mono ?_ fun _ _ h => h)
  rintro _ q ⟨m, hm, hq'⟩
  exact ⟨hvars, m, hm, hq.trans_updated hq'⟩

/-- The class of a variable side and that of the anchor are merged. -/
theorem addSide_var_unites (hp : draft.partition.WellFormed) {x : String} {other : ClassId}
    (hroot : draft.partition.owner? anchor = some root)
    (hother : draft.partition.owner? (draft.vars.number x) = some other) :
    Ends (addSide anchor (.var x)) draft
      (fun _ d => d.vars = draft.vars ∧
        ((root = other ∧ Similar draft.partition d.partition) ∨
          ∃ id, Unites draft.partition d.partition anchor (draft.vars.number x) id))
      fun e _ => ∃ (plan : Absorption) (c : _),
        plan.Joins draft.partition anchor (draft.vars.number x) ∧ e = .clash c ∧
        Multiterm.mergeOption (draft.partition.classAt plan.survivor).term
          (draft.partition.classAt plan.absorbed).term = .error c := by
  refine ends_get_bind ?_
  refine Ends.bind (findOwner_ends hp.linked hroot) ?_
  rintro _ d₁ ⟨rfl, hvars₁, hq₁⟩
  rename_i root
  refine Ends.bind (findOwner_ends hq₁.linked (by rw [hq₁.owner, hother])) ?_
  rintro _ d₂ ⟨rfl, hvars₂, hq₂⟩
  rename_i other
  have hq := hq₁.trans hq₂
  refine ends_get_bind ?_
  refine Ends.bind (P := fun _ d => d.partition = d₂.partition ∧ d.vars = d₂.vars) ?_ ?_
  · cases d₂.partition.mergeEvent? root other with
    | none => exact ends_pure ⟨rfl, rfl⟩
    | some e => exact ends_modify ⟨rfl, rfl⟩
  rintro _ d₃ ⟨hd₃, hvars₃⟩
  rw [← hd₃] at hq
  have hvars : d₃.vars = draft.vars := hvars₃.trans (hvars₂.trans hvars₁)
  refine Ends.bind (lift_ends ((hp.merge_ends hroot hother hq).mono ?_ fun _ _ h => h))
    fun _ _ h => ends_pure h
  exact fun id q h => ⟨hvars, h.imp (fun h => ⟨h.1, h.2.2⟩) fun h => ⟨id, h⟩⟩

/-- The class of a variable side and that of the anchor become one. -/
theorem addSide_var_ends (hp : draft.partition.Proper n) {x : String} {other : ClassId}
    (hroot : draft.partition.owner? anchor = some root)
    (hother : draft.partition.owner? (draft.vars.number x) = some other) :
    Ends (addSide anchor (.var x)) draft
      (fun _ d => d.vars = draft.vars ∧ d.partition.Proper n ∧
        d.partition.varCount = draft.partition.varCount ∧
        ∀ M w, Asserts M w d.partition ↔
          Asserts M w draft.partition ∧ w (draft.vars.number x) = w anchor)
      fun e _ => ∃ c, e = .clash c ∧ ∀ M w, Asserts M w draft.partition →
        w (draft.vars.number x) = w anchor → M.HasClash := by
  refine (addSide_var_unites hp.toWellFormed hroot hother).mono ?_ ?_
  · rintro _ d ⟨hvars, ⟨rfl, hq⟩ | ⟨-, plan, m, hplan, hjoins, -, hm, hq⟩⟩
    · refine ⟨hvars, hp.of_similar hq, hq.varCount, fun M w => ?_⟩
      rw [hq.asserts_iff]
      exact (and_iff_left_of_imp fun h => h.eq hother hroot).symm
    · refine ⟨hvars, hp.of_merged hplan hm hq, hq.varCount, fun M w => ?_⟩
      rw [hq.asserts_iff_of_joins hp.toWellFormed hplan hm hjoins, eq_comm]
  · rintro _ _ ⟨plan, c, hjoins, rfl, hm⟩
    exact ⟨c, rfl, fun M w hasserts hw => hasserts.hasClash_of_joins hm hjoins hw.symm⟩

/-- Adding a side says that it describes the value of the anchor. -/
theorem addSide_ends (hp : draft.partition.Proper n) (hn : draft.vars.names.length = n)
    (hroot : draft.partition.owner? anchor = some root) (side : Term)
    (hside : ∀ x ∈ side.vars, x ∈ draft.vars.names) :
    Ends (addSide anchor side) draft
      (fun _ d => d.vars = draft.vars ∧ d.partition.Proper n ∧
        d.partition.varCount = draft.partition.varCount ∧
        ∀ M w, Asserts M w d.partition ↔ Asserts M w draft.partition ∧
          side.Describes M (fun x => w (draft.vars.number x)) (w anchor))
      fun e _ => ∃ c, e = .clash c ∧ ∀ M w, Asserts M w draft.partition →
        side.Describes M (fun x => w (draft.vars.number x)) (w anchor) → M.HasClash := by
  cases side with
  | var x =>
    have hx : (draft.vars.number x).index < n := hn ▸ Variables.number_lt (hside x (by simp))
    obtain ⟨other, hother⟩ := hp.exists_owner?_of_lt hx
    simp only [Term.describes_var]
    exact addSide_var_ends hp hroot hother
  | app f args =>
    refine (addSide_app_ends hp.toWellFormed hroot f args).mono ?_ ?_
    · rintro _ d ⟨hvars, m, hm, hq⟩
      refine ⟨hvars, ?_, hq.varCount, fun M w => ?_⟩
      · refine hp.of_commit hq (hp.owner_live hroot).2 hm (Cell.filled_app f args) fun v hv => ?_
        rw [Cell.vars_app] at hv
        obtain ⟨x, hx, rfl⟩ := List.mem_map.1 hv
        exact hn ▸ Variables.number_lt (hside x hx)
      · rw [hq.asserts_commit hp.toWellFormed hroot hm, Cell.describes_app]
    · rintro e _ ⟨c, rfl, hm⟩
      refine ⟨c, rfl, fun M w hasserts hside => ?_⟩
      rw [← Cell.describes_app] at hside
      exact Multiterm.hasClash_of_mergeOption hm (hasserts.term hroot) hside

/-! ### Adding an equation -/

/-- `d` is `draft` with the equation added: it says what both say, but for the values of variables
behind the first `n` ones. -/
structure Added (e : Equation) (n : ℕ) (draft d : Draft) : Prop where
  names : d.vars.names = draft.vars.names
  proper : d.partition.Proper n
  sound : ∀ (M : Domain) (w : Var → M.Object), Asserts M w d.partition →
    Asserts M w draft.partition ∧ e.Holds M fun x => w (draft.vars.number x)
  complete : ∀ (M : Domain) (w : Var → M.Object), Asserts M w draft.partition →
    (e.Holds M fun x => w (draft.vars.number x)) →
    ∃ w' : Var → M.Object, (∀ v : Var, v.index < n → w' v = w v) ∧ Asserts M w' d.partition

/-- The failure is a clash, and with what the draft says the equation holds in domains that have a
clash only. -/
def Refutes (e : Equation) (draft : Draft) (failure : Failure) : Prop :=
  ∃ c, failure = .clash c ∧ ∀ (M : Domain) (w : Var → M.Object), Asserts M w draft.partition →
    (e.Holds M fun x => w (draft.vars.number x)) → M.HasClash

/-- Both sides are added to the class of a variable that has a class already. -/
theorem addSides_ends {e : Equation} (hp : draft.partition.Proper n)
    (hn : draft.vars.names.length = n) (hanchor : anchor.index < n)
    (he : ∀ x ∈ e.vars, x ∈ draft.vars.names)
    (hholds : ∀ (M : Domain) (w : Var → M.Object), (e.Holds M fun x => w (draft.vars.number x)) ↔
      (e.left.Describes M (fun x => w (draft.vars.number x)) (w anchor) ∧
        e.right.Describes M (fun x => w (draft.vars.number x)) (w anchor))) :
    Ends (addSide anchor e.left >>= fun _ => addSide anchor e.right) draft
      (fun _ d => Added e n draft d) fun failure _ => Refutes e draft failure := by
  rw [Equation.vars, List.forall_mem_append] at he
  obtain ⟨root, hroot⟩ := hp.exists_owner?_of_lt hanchor
  refine Ends.bind ((addSide_ends hp hn hroot e.left he.1).mono (fun _ _ h => h) ?_) ?_
  · rintro failure _ ⟨c, rfl, hc⟩
    exact ⟨c, rfl, fun M w ha hw => hc M w ha ((hholds M w).1 hw).1⟩
  rintro _ d ⟨hvars, hd, -, hasserts⟩
  obtain ⟨root', hroot'⟩ := hd.exists_owner?_of_lt hanchor
  refine (addSide_ends hd (hvars ▸ hn) hroot' e.right (hvars ▸ he.2)).mono ?_ ?_
  · rintro _ d' ⟨hvars', hd', -, hasserts'⟩
    have hall : ∀ (M : Domain) (w : Var → M.Object), Asserts M w d'.partition ↔
        Asserts M w draft.partition ∧ e.Holds M fun x => w (draft.vars.number x) := by
      intro M w
      rw [hasserts', hasserts, hholds, hvars, and_assoc]
    exact ⟨by rw [hvars', hvars], hd', fun M w => (hall M w).1,
      fun M w ha hw => ⟨w, fun _ _ => rfl, (hall M w).2 ⟨ha, hw⟩⟩⟩
  · rintro failure _ ⟨c, rfl, hc⟩
    refine ⟨c, rfl, fun M w ha hw => ?_⟩
    obtain ⟨hl, hr⟩ := (hholds M w).1 hw
    exact hc M w ((hasserts M w).2 ⟨ha, hl⟩) (hvars ▸ hr)

/-- The variable that is numbered next can be given any value of both sides. -/
theorem exists_hidden_value (hp : draft.partition.Proper n) {left right : Term}
    (hnumber : ∀ x ∈ left.vars ++ right.vars, (draft.vars.number x).index < n) {M : Domain}
    {w : Var → M.Object} {d : M.Object} (ha : Asserts M w draft.partition)
    (hleft : left.Describes M (fun x => w (draft.vars.number x)) d)
    (hright : right.Describes M (fun x => w (draft.vars.number x)) d) :
    ∃ w' : Var → M.Object, (∀ v : Var, v.index < n → w' v = w v) ∧
      Asserts M w' draft.partition ∧
      left.Describes M (fun x => w' (draft.vars.number x)) (w' ⟨draft.partition.varCount⟩) ∧
      right.Describes M (fun x => w' (draft.vars.number x)) (w' ⟨draft.partition.varCount⟩) := by
  have hagree : ∀ v : Var, v.index < draft.partition.varCount →
      Function.update w ⟨draft.partition.varCount⟩ d v = w v := by
    rintro v hv
    refine Function.update_of_ne ?_ _ _
    rintro rfl
    exact hv.false
  have hagree' : ∀ x ∈ left.vars ++ right.vars,
      Function.update w ⟨draft.partition.varCount⟩ d (draft.vars.number x) =
        w (draft.vars.number x) := fun x hx =>
    hagree _ ((hnumber x hx).trans_le hp.le_varCount)
  refine ⟨Function.update w ⟨draft.partition.varCount⟩ d, fun v hv =>
    hagree v (hv.trans_le hp.le_varCount), (hp.asserts_congr hagree).2 ha, ?_⟩
  rw [Function.update_self]
  exact ⟨(Term.describes_congr _ fun x hx => hagree' x (List.mem_append_left _ hx)).2 hleft,
    (Term.describes_congr _ fun x hx => hagree' x (List.mem_append_right _ hx)).2 hright⟩

/-- `d` is `draft` with one more variable, which has the value of the term. -/
structure Hides (t : Term) (n : ℕ) (draft d : Draft) : Prop where
  names : d.vars.names = draft.vars.names
  proper : d.partition.Proper n
  owner : d.partition.owner? ⟨draft.partition.varCount⟩ = some ⟨draft.partition.records.size⟩
  asserts : ∀ (M : Domain) (w : Var → M.Object), Asserts M w d.partition ↔
    Asserts M w draft.partition ∧
      t.Describes M (fun x => w (draft.vars.number x)) (w ⟨draft.partition.varCount⟩)

/-- The first side is added to the class of a new hidden variable, which has no multiterm yet. -/
theorem hide_ends (hp : draft.partition.Proper n) (hn : draft.vars.names.length = n) (f : Symbol)
    (args : List Term) (hside : ∀ x ∈ (Term.app f args).vars, x ∈ draft.vars.names) :
    Ends (freshHidden >>= fun anchor => addSide anchor (.app f args) >>= fun _ => pure anchor) draft
      (fun anchor d => anchor = ⟨draft.partition.varCount⟩ ∧ Hides (.app f args) n draft d)
      fun _ _ => False := by
  have hext := hp.linked.extended_freshVar
  refine Ends.bind (P := fun v d => v = ⟨draft.partition.varCount⟩ ∧
    d.partition = draft.partition.freshVar.2 ∧ d.vars.names = draft.vars.names)
    (ends_modifyGet ⟨rfl, rfl, rfl⟩) ?_
  rintro _ d₁ ⟨rfl, hd₁, hnames₁⟩
  rw [← hd₁] at hext
  have hnumber₁ := Variables.number_congr hnames₁
  have hwell := hext.wellFormed hp.toWellFormed
  have hroot : d₁.partition.owner? ⟨draft.partition.varCount⟩ =
      some ⟨draft.partition.records.size⟩ := by rw [hext.owner, if_pos rfl]
  have hempty : (d₁.partition.classAt ⟨draft.partition.records.size⟩).term = none := by
    rw [hext.classAt, if_pos rfl]
  refine Ends.bind ((addSide_app_ends hwell hroot f args).mono (fun _ _ h => h) ?_) ?_
  · rintro failure _ ⟨c, -, hm⟩
    rw [hempty] at hm
    cases hm
  rintro _ d₂ ⟨hvars₂, m, hm, hq⟩
  have hleft := fun M w => hq.asserts_commit (M := M) (w := w) hwell hroot hm
  rw [hempty, hnumber₁] at hm
  obtain rfl := Except.ok.inj hm
  refine ends_pure ⟨rfl, by rw [hvars₂, hnames₁], ?_, by rw [hq.owner, hroot], fun M w => ?_⟩
  · refine hp.of_extended_updated hext hq (Cell.filled_app f args) fun v hv => ?_
    rw [Cell.vars_app] at hv
    obtain ⟨x, hx, rfl⟩ := List.mem_map.1 hv
    exact hn ▸ Variables.number_lt (hside x hx)
  · rw [hleft, hnumber₁, hext.asserts_iff hp.toWellFormed, Cell.describes_app]

/-- Both sides are added to the class of a new hidden variable. -/
theorem addHidden_ends {f : Symbol} {args : List Term} {right : Term}
    (hp : draft.partition.Proper n) (hn : draft.vars.names.length = n)
    (he : ∀ x ∈ Equation.vars ⟨.app f args, right⟩, x ∈ draft.vars.names) :
    Ends (freshHidden >>= fun anchor =>
        addSide anchor (.app f args) >>= fun _ => addSide anchor right) draft
      (fun _ d => Added ⟨.app f args, right⟩ n draft d)
      fun failure _ => Refutes ⟨.app f args, right⟩ draft failure := by
  have hnumber : ∀ x ∈ (Term.app f args).vars ++ right.vars,
      (draft.vars.number x).index < n := fun x hx => hn ▸ Variables.number_lt (he x hx)
  rw [Equation.vars, List.forall_mem_append] at he
  have hsplit : (freshHidden >>= fun anchor =>
        addSide anchor (.app f args) >>= fun _ => addSide anchor right) =
      (freshHidden >>= fun anchor => addSide anchor (.app f args) >>= fun _ => pure anchor) >>=
        fun anchor => addSide anchor right := by simp
  rw [hsplit]
  refine Ends.bind ((hide_ends hp hn f args he.1).safe fun _ _ h => h) ?_
  rintro _ d₂ ⟨rfl, h₂⟩
  have hnumber₂ := Variables.number_congr h₂.names
  have hvalue : ∀ (M : Domain) (w : Var → M.Object), Asserts M w draft.partition →
      (Equation.Holds M (fun x => w (draft.vars.number x)) ⟨.app f args, right⟩) →
      ∃ w' : Var → M.Object, (∀ v : Var, v.index < n → w' v = w v) ∧
        Asserts M w' d₂.partition ∧ right.Describes M (fun x => w' (draft.vars.number x))
          (w' ⟨draft.partition.varCount⟩) := by
    rintro M w ha ⟨d, hl, hr⟩
    obtain ⟨w', hagree, ha', hl', hr'⟩ := exists_hidden_value hp hnumber ha hl hr
    exact ⟨w', hagree, (h₂.asserts M w').2 ⟨ha', hl'⟩, hr'⟩
  refine (addSide_ends h₂.proper (by rw [h₂.names, hn]) h₂.owner right
    (h₂.names ▸ he.2)).mono ?_ ?_
  · rintro _ d₃ ⟨hvars₃, hd₃, -, hasserts₃⟩
    rw [hnumber₂] at hasserts₃
    refine ⟨by rw [hvars₃, h₂.names], hd₃, fun M w ha => ?_, fun M w ha hw => ?_⟩
    · obtain ⟨ha₂, hr⟩ := (hasserts₃ M w).1 ha
      obtain ⟨ha, hl⟩ := (h₂.asserts M w).1 ha₂
      exact ⟨ha, _, hl, hr⟩
    · obtain ⟨w', hagree, ha', hr'⟩ := hvalue M w ha hw
      exact ⟨w', hagree, (hasserts₃ M w').2 ⟨ha', hr'⟩⟩
  · rintro failure _ ⟨c, rfl, hc⟩
    rw [hnumber₂] at hc
    refine ⟨c, rfl, fun M w ha hw => ?_⟩
    obtain ⟨w', -, ha', hr'⟩ := hvalue M w ha hw
    exact hc M w' ha' hr'

/-- Adding an equation says that it holds. -/
theorem addEquation_ends (hp : draft.partition.Proper n) (hn : draft.vars.names.length = n)
    (e : Equation) (he : ∀ x ∈ e.vars, x ∈ draft.vars.names) :
    Ends (addEquation e) draft (fun _ d => Added e n draft d)
      fun failure _ => Refutes e draft failure := by
  have hlt : ∀ x ∈ e.vars, (draft.vars.number x).index < n :=
    fun x hx => hn ▸ Variables.number_lt (he x hx)
  obtain ⟨left, right⟩ := e
  cases left with
  | var x =>
    refine addSides_ends hp hn (hlt x (by simp [Equation.vars])) he fun M w => ?_
    simp [Equation.Holds, Term.describes_var]
  | app f args =>
    cases right with
    | var x =>
      refine addSides_ends hp hn (hlt x (by simp [Equation.vars])) he fun M w => ?_
      simp [Equation.Holds, Term.describes_var]
    | app g rights => exact addHidden_ends hp hn he

/-! ### Laying out a system -/

/-- The draft says what the equations say, and it can be discharged. -/
structure Laid (E : List Equation) (draft : Draft) : Prop where
  proper : draft.partition.Proper draft.vars.names.length
  sound : ∀ (M : Domain) (w : Var → M.Object), Asserts M w draft.partition →
    ∀ e ∈ E, e.Holds M fun x => w (draft.vars.number x)
  complete : ∀ (M : Domain) (v : String → M.Object), (∀ e ∈ E, e.Holds M v) →
    ∃ w : Var → M.Object, (∀ x ∈ draft.vars.names, w (draft.vars.number x) = v x) ∧
      Asserts M w draft.partition

theorem proper_foldl_freshVar (names : List String) {p : Partition} (hp : p.Proper p.varCount) :
    let q := names.foldl (fun p _ => p.freshVar.2) p
    q.Proper q.varCount ∧ q.varCount = p.varCount + names.length ∧
      ∀ (M : Domain) (w : Var → M.Object), Asserts M w p → Asserts M w q := by
  induction names generalizing p with
  | nil => exact ⟨hp, rfl, fun _ _ h => h⟩
  | cons _ names ih =>
    have hq := hp.linked.extended_freshVar
    obtain ⟨h₁, h₂, h₃⟩ := ih (hp.of_extended hq)
    refine ⟨h₁, ?_, fun M w ha => h₃ M w ((hq.asserts_iff hp.toWellFormed).2 ha)⟩
    rw [List.foldl_cons, h₂, hq.varCount, List.length_cons]
    omega

theorem laid_start (E : List Equation) : Laid [] (start E) := by
  obtain ⟨hproper, hcount, hasserts⟩ :=
    proper_foldl_freshVar (Variables.ofEquations E).names proper_start
  have hlen : (start E).partition.varCount = (start E).vars.names.length := by
    rw [start, hcount]
    exact Nat.zero_add _
  refine ⟨hlen ▸ hproper, fun _ _ _ _ he => absurd he List.not_mem_nil, fun M v _ => ?_⟩
  refine ⟨fun u => v ((start E).vars.names.getD u.index ""), fun x hx => ?_, ?_⟩
  · dsimp only
    rw [Variables.number, List.getD_eq_getElem?_getD,
      List.getElem?_eq_getElem (List.idxOf_lt_length_iff.2 hx), List.getElem_idxOf,
      Option.getD_some]
  · refine hasserts M _ fun {u id} hu => ?_
    cases hu

/-- The failure is a clash, and the equations hold in domains that have a clash only. -/
def RefutesAll (E : List Equation) (failure : Failure) : Prop :=
  ∃ c, failure = .clash c ∧ ∀ (M : Domain) (v : String → M.Object), (∀ e ∈ E, e.Holds M v) →
    M.HasClash

theorem Laid.addEquation_ends {E seen : List Equation} {e : Equation} (h : Laid seen draft)
    (hseen : seen ⊆ E) (he : e ∈ E)
    (hnames : draft.vars.names = (Variables.ofEquations E).names) :
    Ends (addEquation e) draft
      (fun _ d => Laid (seen ++ [e]) d ∧ d.vars.names = (Variables.ofEquations E).names)
      fun failure _ => RefutesAll E failure := by
  have hmem : ∀ e ∈ E, ∀ x ∈ e.vars, x ∈ draft.vars.names := by
    intro e he x hx
    rw [hnames]
    exact Variables.mem_ofEquations.2 ⟨e, he, hx⟩
  -- values of the written variables are all that an equation needs
  have hvalues : ∀ (M : Domain) (v : String → M.Object) (w : Var → M.Object),
      (∀ x ∈ draft.vars.names, w (draft.vars.number x) = v x) →
      ∀ e ∈ E, (e.Holds M fun x => w (draft.vars.number x)) ↔ e.Holds M v :=
    fun M v w hw e he => e.holds_congr fun x hx => hw x (hmem e he x hx)
  refine (Draft.addEquation_ends h.proper rfl e (hmem e he)).mono ?_ ?_
  · intro _ d hd
    have hnumber := Variables.number_congr hd.names
    refine ⟨⟨hd.names ▸ hd.proper, fun M w ha => ?_, fun M v hv => ?_⟩, hd.names.trans hnames⟩
    · obtain ⟨ha, hw⟩ := hd.sound M w ha
      rw [hnumber, List.forall_mem_append, List.forall_mem_singleton]
      exact ⟨h.sound M w ha, hw⟩
    · rw [List.forall_mem_append, List.forall_mem_singleton] at hv
      obtain ⟨w, hw, ha⟩ := h.complete M v hv.1
      obtain ⟨w', hagree, ha'⟩ := hd.complete M w ha ((hvalues M v w hw e he).2 hv.2)
      refine ⟨w', fun x hx => ?_, ha'⟩
      rw [hd.names] at hx
      rw [hnumber, hagree _ (Variables.number_lt hx), hw x hx]
  · rintro failure _ ⟨c, rfl, hc⟩
    refine ⟨c, rfl, fun M v hv => ?_⟩
    obtain ⟨w, hw, ha⟩ := h.complete M v fun e he => hv e (hseen he)
    exact hc M w ha ((hvalues M v w hw e he).2 (hv e he))

/-- When all equations have been added nothing but the pending counts is changed, which become the
numbers of occurrences. -/
theorem layOut_ends_of_forM {E : List Equation} {P : Draft → Prop} {R : Failure → Draft → Prop}
    (hadd : Ends (E.forM addEquation) (start E) (fun _ d => P d) R)
    (hproper : ∀ d, P d → ∃ n, d.partition.Proper n) :
    Ends (layOut E) (start E)
      (fun _ d => ∃ d₀ g, P d₀ ∧ d.vars = d₀.vars ∧ Repriced d₀.partition d.partition g ∧
        ∀ id ∈ d.partition.liveClasses, (d.partition.classAt id).pending =
          d.partition.occurrencesOf id d.partition.occurrences) R := by
  refine Ends.bind hadd fun _ d₀ hd₀ => ?_
  obtain ⟨n, hn⟩ := hproper d₀ hd₀
  refine Ends.bind (P := fun _ d => d.vars = d₀.vars ∧ (∃ g, Repriced d₀.partition d.partition g) ∧
    ∀ id ∈ d.partition.liveClasses, (d.partition.classAt id).pending =
      d.partition.occurrencesOf id d.partition.occurrences)
    (lift_ends (hn.countOccurrences_ends.safe fun _ _ hq => ⟨rfl, hq⟩)) ?_
  rintro _ d ⟨hvars, ⟨g, hg⟩, hcount⟩
  refine ends_get_bind ?_
  exact ends_modify ⟨d₀, g, hd₀, hvars, hg, hcount⟩

/-- What is laid out when all equations have been added. -/
theorem laid_forM (E : List Equation) :
    Ends (E.forM addEquation) (start E)
      (fun _ d => Laid E d ∧ d.vars.names = (Variables.ofEquations E).names)
      fun failure _ => RefutesAll E failure := by
  refine (Ends.forM (fun rest d => ∃ seen, seen ++ rest = E ∧ Laid seen d ∧
    d.vars.names = (Variables.ofEquations E).names) (fun e rest d hd => ?_) E
    ⟨[], rfl, laid_start E, rfl⟩).mono ?_ fun _ _ h => h
  · obtain ⟨seen, rfl, hlaid, hnames⟩ := hd
    refine (hlaid.addEquation_ends (List.subset_append_left _ _) (by simp) hnames).mono ?_
      fun _ _ h => h
    exact fun _ d hd => ⟨seen ++ [e], by simp, hd⟩
  · rintro _ d ⟨seen, hseen, hd⟩
    rw [List.append_nil] at hseen
    exact hseen ▸ hd

/-- A layout says what the equations say, and its pending counts are right. -/
theorem layOut_ends (E : List Equation) :
    Ends (layOut E) (start E)
      (fun _ d => Laid E d ∧ d.vars.names = (Variables.ofEquations E).names ∧
        ∀ id ∈ d.partition.liveClasses, (d.partition.classAt id).pending =
          d.partition.occurrencesOf id d.partition.occurrences)
      fun failure _ => RefutesAll E failure := by
  refine (layOut_ends_of_forM (laid_forM E) fun d h => ⟨_, h.1.proper⟩).mono ?_ fun _ _ h => h
  rintro _ d ⟨d₀, g, ⟨hlaid, hnames⟩, hvars, hq, hcount⟩
  rw [← hvars] at hnames
  refine ⟨⟨hvars ▸ hq.proper hlaid.proper, fun M w ha => ?_, fun M v hv => ?_⟩, hnames, hcount⟩
  · rw [hvars]
    exact hlaid.sound M w (hq.asserts_iff.1 ha)
  · obtain ⟨w, hw, ha⟩ := hlaid.complete M v hv
    exact ⟨w, hvars ▸ hw, hq.asserts_iff.2 ha⟩

end Draft

end Multiequation
