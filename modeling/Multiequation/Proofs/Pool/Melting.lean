import Multiequation.Proofs.Pool.Stall
import Multiequation.Proofs.Solution.Reading

/-!
# Melting a stalled pool

Next to the terms there is a domain in which one of the variables is every symbol applied to this
variable itself. It is the only object on a cycle, and nothing else lies below it. Everything that a
stalled pool says becomes true when the members of the waiting classes are all taken to be this object
and every class that has been discharged is read back. So a class that does not wait does not have to
lie on a cycle or below one.
-/

namespace Multiequation

open Multiequation.Partition

/-! ### The domain -/

/-- The variable that can be applied to itself. -/
def molten : Term := .var ""

/-- The terms, and the applications of all symbols to the molten object, which are molten. -/
abbrev Domain.melted : Domain where
  Object := Term
  IsApp d f ds := d = .app f ds ∨ d = molten ∧ ∀ e ∈ ds, e = molten
  args_unique := by
    rintro d f ds es (rfl | ⟨rfl, hds⟩) (hes | ⟨hd, hes⟩) hlen
    · exact (Term.app.inj hes).2
    · cases hd
    · cases hes
    · rw [List.eq_replicate_of_mem hds, List.eq_replicate_of_mem hes, hlen]

namespace Domain

variable {d e : Term}

theorem melted_arg (h : melted.Arg d e) : d = molten ∧ e = molten ∨ e.size < d.size := by
  obtain ⟨f, ds, rfl | ⟨rfl, hds⟩, he⟩ := h
  · exact .inr (Term.size_lt_of_mem f he)
  · exact .inl ⟨rfl, hds e he⟩

/-- Nothing but the molten object lies below it. -/
theorem eq_molten_of_below (h : Relation.TransGen melted.Arg molten e) : e = molten := by
  have harg : ∀ {e}, melted.Arg molten e → e = molten := by
    rintro e ⟨f, ds, hd | ⟨-, hds⟩, he⟩
    · cases hd
    · exact hds e he
  induction h with
  | single h => exact harg h
  | tail _ h ih => exact harg (ih ▸ h)

/-- Nothing but the molten object lies on a cycle. -/
theorem eq_molten_of_cycle (h : Relation.TransGen melted.Arg d d) : d = molten := by
  have hbelow : ∀ {e}, Relation.TransGen melted.Arg d e → d = molten ∨ e.size < d.size := by
    intro e he
    induction he with
    | single h => exact (melted_arg h).imp_left And.left
    | tail _ h ih =>
      refine ih.imp_right fun hlt => ?_
      obtain ⟨rfl, rfl⟩ | hlt' := melted_arg h
      · exact hlt
      · exact hlt'.trans hlt
  exact (hbelow h).resolve_right (lt_irrefl _)

end Domain

/-! ### What multiterms say when some variables are molten -/

/-- What is true of terms among the terms stays true. -/
theorem Multiterm.describes_melted {t : Multiterm} {w : Var → Term} {d : Term}
    (h : t.Describes .terms w d) : t.Describes .melted w d := by
  induction t using Multiterm.induction generalizing d with
  | mk f args ih =>
    obtain ⟨ds, rfl, hds⟩ := describes_mk.1 h
    refine describes_mk.2 ⟨ds, .inl rfl, ?_⟩
    clear h
    induction hds with
    | nil => exact .nil
    | @cons c d args ds hc _ ihargs =>
      rw [List.forall_mem_cons] at ih
      refine .cons ⟨hc.1, ?_⟩ (ihargs ih.2)
      cases ht : c.term with
      | none => exact optionDescribes_none
      | some t =>
        have hterm : t.Describes .terms w d := by simpa [ht] using hc.2
        exact optionDescribes_some.2 (ih.1 t ht hterm)

/-- When all variables are molten, every multiterm describes the molten object. -/
theorem Multiterm.describes_molten {w : Var → Term} (t : Multiterm)
    (hw : ∀ v ∈ t.vars, w v = molten) : t.Describes .melted w molten := by
  induction t using Multiterm.induction with
  | mk f args ih =>
    rw [vars_mk] at hw
    refine describes_mk.2 ⟨args.map fun _ => molten, .inr ⟨rfl, by simp⟩, ?_⟩
    rw [List.forall₂_map_right_iff, List.forall₂_same]
    refine fun c hc => ⟨fun v hv => hw v (Cell.mem_varsOfArgs.2 ⟨c, hc, .inl hv⟩), ?_⟩
    cases ht : c.term with
    | none => exact optionDescribes_none
    | some t =>
      refine optionDescribes_some.2 (ih c hc t ht fun v hv => hw v ?_)
      exact Cell.mem_varsOfArgs.2 ⟨c, hc, .inr (by rwa [ht])⟩

/-! ### Reading the discharged classes back -/

namespace Partition

variable {p : Partition} {id : ClassId} {closed : List ClassId}

/-- The term of a class, with a term for each class that it refers to. -/
def readClass (p : Partition) (g : ClassId → Term) (id : ClassId) : Term :=
  match (p.classAt id).term with
  | none => .var "_"
  | some t => t.read p.owner? g

theorem readClass_ne_molten (g : ClassId → Term) : p.readClass g id ≠ molten := by
  rw [readClass, molten]
  cases (p.classAt id).term with
  | none => simp
  | some t =>
    obtain ⟨f, args⟩ := t
    simp [Multiterm.read_mk]

theorem readClass_congr {g g' : ClassId → Term}
    (h : ∀ v ∈ Multiterm.varsOfOption (p.classAt id).term, ∀ o, p.owner? v = some o → g o = g' o) :
    p.readClass g id = p.readClass g' id := by
  rw [readClass, readClass]
  cases ht : (p.classAt id).term with
  | none => rfl
  | some t => exact t.read_congr fun v hv => h v (by rwa [ht])

/-- What a closed class refers to is not closed before it. -/
theorem Closed.owner?_ne {pre suf : List ClassId} (h : p.Closed (pre ++ id :: suf)) {j : ClassId}
    (hj : j ∈ id :: suf) {v : Var} (hv : v ∈ Multiterm.varsOfOption (p.classAt j).term) :
    p.owner? v ≠ some id := by
  intro hown
  obtain ⟨-, -, hdisjoint⟩ := List.nodup_append.1 h.nodup
  have hpre : ∀ i ∈ id :: suf, i ∉ pre := fun i hi hmem => hdisjoint i hmem i hi rfl
  have hlt := h.later j (List.mem_append_right pre hj) v hv id (by simp) hown
  rw [List.idxOf_append_of_notMem (hpre j hj), List.idxOf_append_of_notMem (hpre id (by simp)),
    List.idxOf_cons_self] at hlt
  omega

/-- The closed classes can be read back, whatever they refer to besides. -/
theorem Closed.exists_terms (h : p.Closed closed) :
    ∃ g : ClassId → Term, (∀ id ∈ closed, g id = p.readClass g id) ∧
      ∀ id ∉ closed, g id = molten := by
  suffices hsuffix : ∀ suf, suf <:+ closed → ∃ g : ClassId → Term,
      (∀ id ∈ suf, g id = p.readClass g id) ∧ ∀ id ∉ suf, g id = molten from
    hsuffix closed (List.suffix_refl closed)
  intro suf hsuf
  -- from the last class on, each class is given its term when those behind it have theirs
  induction suf with
  | nil => exact ⟨fun _ => molten, nofun, fun _ _ => rfl⟩
  | cons id suf ih =>
    obtain ⟨g, hread, hmolten⟩ := ih ((List.suffix_cons id suf).trans hsuf)
    obtain ⟨pre, rfl⟩ := hsuf
    have hid : id ∉ suf := (List.nodup_cons.1 (List.nodup_append.1 h.nodup).2.1).1
    have hkeeps : ∀ j ∈ id :: suf, p.readClass g j =
        p.readClass (Function.update g id (p.readClass g id)) j := by
      refine fun j hj => readClass_congr fun v hv o ho => ?_
      rw [Function.update_of_ne]
      rintro rfl
      exact h.owner?_ne hj hv ho
    refine ⟨Function.update g id (p.readClass g id), fun j hj => ?_, fun j hj => ?_⟩
    · rw [← hkeeps j hj]
      obtain rfl | hj := List.mem_cons.1 hj
      · rw [Function.update_self]
      · rw [Function.update_of_ne (ne_of_mem_of_not_mem hj hid), hread j hj]
    · rw [Function.update_of_ne (List.ne_of_not_mem_cons hj),
        hmolten j (List.not_mem_of_not_mem_cons hj)]

/-- When the other classes refer to each other only, the partition is true of values among which only
those of the other classes are molten. -/
theorem Closed.exists_molten {n : ℕ} (h : p.Closed closed) (hp : p.Proper n)
    (hrefers : ∀ id ∈ p.openClasses closed, ∀ v ∈ Multiterm.varsOfOption (p.classAt id).term,
      ∀ o, p.owner? v = some o → o ∉ closed) :
    ∃ w : Var → Term, Asserts .melted w p ∧
      ∀ v id, p.owner? v = some id → w v = molten → id ∉ closed := by
  obtain ⟨g, hread, hmolten⟩ := h.exists_terms
  let w := fun v => ((p.owner? v).map g).getD molten
  have hw : ∀ {v id}, p.owner? v = some id → w v = g id := by
    intro v id hv
    simp only [w, hv, Option.map_some, Option.getD_some]
  refine ⟨w, fun {v id} hv => ⟨fun u hu => (hw hu).trans (hw hv).symm, ?_⟩, ?_⟩
  · rw [hw hv]
    cases ht : (p.classAt id).term with
    | none => exact Multiterm.optionDescribes_none
    | some t =>
      rw [Multiterm.optionDescribes_some]
      have howned : ∀ u ∈ t.vars, ∃ o, p.owner? u = some o := fun u hu =>
        hp.exists_owner?_of_lt (hp.vars_lt (by rwa [ht]))
      by_cases hid : id ∈ closed
      · have hval : ∀ u ∈ t.vars, ∃ o, p.owner? u = some o ∧ g o = w u := fun u hu =>
          (howned u hu).imp fun o ho => ⟨ho, (hw ho).symm⟩
        refine Multiterm.describes_melted ?_
        rw [(h.collapsed id hid t ht).describes_terms_iff hval, hread id hid, readClass, ht]
      · have hopen := mem_openClasses.2 ⟨hp.owner_mem_liveClasses hv, hid⟩
        rw [hmolten id hid]
        refine t.describes_molten fun u hu => ?_
        obtain ⟨o, ho⟩ := howned u hu
        rw [hw ho, hmolten o (hrefers id hopen u (by rwa [ht]) o ho)]
  · intro v id hv hmelt hid
    rw [hw hv, hread id hid] at hmelt
    exact readClass_ne_molten g hmelt

end Partition

/-! ### Stalled pools -/

namespace Pool

variable {S : ∀ M : Domain, (Var → M.Object) → Prop} {n : ℕ} {pool : Pool} {e : Failure}
  {closed : List ClassId} {id : ClassId}

/-- The open classes refer to open classes only. -/
theorem Invariant.not_mem_closed (h : Invariant S n pool closed [] [] []) :
    ∀ id ∈ pool.partition.openClasses closed,
      ∀ v ∈ Multiterm.varsOfOption (pool.partition.classAt id).term,
        ∀ o, pool.partition.owner? v = some o → o ∉ closed := by
  intro id hid v hv o ho hclosed
  have hzero := h.isClosed.pending o hclosed
  rw [h.pending o (h.isClosed.live o hclosed), List.append_nil, occurrencesOf_eq_zero_iff] at hzero
  exact hzero v (List.mem_flatMap.2 ⟨id, hid, hv⟩) ho

/-- The claims are true of values among which only those of the members of the waiting classes are
molten. -/
theorem Stalled.exists_molten (h : Stalled S n e pool) : ∃ w : Var → Term, S .melted w ∧
    ∀ v : Var, v.index < n → w v = molten →
      ∃ id ∈ pool.pendingClasses, pool.partition.owner? v = some id := by
  obtain ⟨closed, hinv⟩ := h.invariant
  obtain ⟨w, hasserts, hmolten⟩ := hinv.isClosed.exists_molten hinv.proper hinv.not_mem_closed
  refine ⟨w, (hinv.asserts .melted w).2 ⟨hasserts, List.forall_mem_nil _⟩, fun v hlt hmelt => ?_⟩
  obtain ⟨id, hv⟩ := hinv.proper.exists_owner?_of_lt hlt
  have hopen := mem_openClasses.2 ⟨hinv.proper.owner_mem_liveClasses hv, hmolten v id hv hmelt⟩
  exact ⟨id, (hinv.mem_pendingClasses h.ready).2 hopen, hv⟩

end Pool

end Multiequation
