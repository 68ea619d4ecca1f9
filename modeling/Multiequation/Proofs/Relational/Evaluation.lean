import Multiequation.Proofs.Relational.Resolution

/-!
# Computing with bindings, by rules

Walking, carrying bindings out, the occurs check and unification are described by rules without a bound
on the depth: a computation ends with a result when the rules derive it, which takes finitely many steps.
Nothing is derived for a walk that goes round in circles. Triangular bindings have no circles, and there
every walk ends, all bindings can be carried out in every value, and every occurs check ends, each with
the result that is computed within a depth and with no other.
-/

namespace Multiequation.Relational.Bindings

variable {s : Bindings} {k n m : ℕ} {u v w car cdr : Value} {b : Bool}

/-! ### The rules -/

/-- Walking the first value ends with the second one. -/
inductive WalkEnds (s : Bindings) : Value → Value → Prop
  | stop {v : Value} : (∀ n, v = .var n → s.get? n = none) → WalkEnds s v v
  | step {n : ℕ} {v w : Value} : s.get? n = some v → WalkEnds s v w → WalkEnds s (.var n) w

/-- Carrying the bindings out in the first value ends with the second one. -/
inductive WalkStarEnds (s : Bindings) : Value → Value → Prop
  | leaf {v w : Value} : WalkEnds s v w → (∀ car cdr, w ≠ .pair car cdr) → WalkStarEnds s v w
  | pair {v car cdr car' cdr' : Value} : WalkEnds s v (.pair car cdr) → WalkStarEnds s car car' →
      WalkStarEnds s cdr cdr' → WalkStarEnds s v (.pair car' cdr')

/-- Looking for the variable `n` in a value ends with the answer. -/
inductive OccursEnds (s : Bindings) (n : ℕ) : Value → Bool → Prop
  | var {v : Value} {m : ℕ} : WalkEnds s v (.var m) → OccursEnds s n v (m == n)
  | leaf {v w : Value} : WalkEnds s v w → (∀ m, w ≠ .var m) → (∀ car cdr, w ≠ .pair car cdr) →
      OccursEnds s n v false
  | car {v car cdr : Value} : WalkEnds s v (.pair car cdr) → OccursEnds s n car true →
      OccursEnds s n v true
  | cdr {v car cdr : Value} {b : Bool} : WalkEnds s v (.pair car cdr) → OccursEnds s n car false →
      OccursEnds s n cdr b → OccursEnds s n v b

/-- Unifying two values ends with bindings, or with none. -/
inductive UnifyEnds : Value → Value → Bindings → Option Bindings → Prop
  | same {u v : Value} {s : Bindings} {m : ℕ} : WalkEnds s u (.var m) → WalkEnds s v (.var m) →
      UnifyEnds u v s (some s)
  | left {u v w : Value} {s : Bindings} {m : ℕ} {b : Bool} : WalkEnds s u (.var m) →
      WalkEnds s v w → w ≠ .var m → OccursEnds s m w b →
      UnifyEnds u v s (if b then none else some (s.extend m w))
  | right {u v w : Value} {s : Bindings} {n : ℕ} {b : Bool} : WalkEnds s u w →
      (∀ m, w ≠ .var m) → WalkEnds s v (.var n) → OccursEnds s n w b →
      UnifyEnds u v s (if b then none else some (s.extend n w))
  | pair {u v car cdr car' cdr' : Value} {s : Bindings} {r : Option Bindings}
      {next : Bindings → Option Bindings} : WalkEnds s u (.pair car cdr) →
      WalkEnds s v (.pair car' cdr') → UnifyEnds car car' s r →
      (∀ s₁, r = some s₁ → UnifyEnds cdr cdr' s₁ (next s₁)) → UnifyEnds u v s (r.bind next)
  | leaf {u v w w' : Value} {s : Bindings} : WalkEnds s u w → WalkEnds s v w' →
      (∀ m, w ≠ .var m) → (∀ n, w' ≠ .var n) →
      ¬ ((∃ car cdr, w = .pair car cdr) ∧ ∃ car cdr, w' = .pair car cdr) →
      UnifyEnds u v s (if w = w' then some s else none)

/-! ### Walking -/

theorem walkEnds_var_of_none (h : s.get? n = none) : WalkEnds s (.var n) (.var n) :=
  .stop fun m hm => by cases hm; exact h

/-- In triangular bindings every walk ends, and with what it computes. -/
theorem Triangular.walkEnds_iff (hs : s.Triangular) : WalkEnds s v w ↔ s.walk v = w := by
  constructor
  · intro h
    induction h with
    | @stop v hv =>
      cases v with
      | var n => exact walk_var_of_none (hv n rfl)
      | _ => simp
    | step hn _ ih => rw [hs.walk_var_of_some hn, ih]
  · rintro rfl
    obtain ⟨w, hw⟩ := hs.resolves_of_le v
    generalize v.size + s.weight = k at hw
    induction hw with
    | free hn => rw [walk_var_of_none hn]; exact walkEnds_var_of_none hn
    | bound hn _ ih => rw [hs.walk_var_of_some hn]; exact .step hn ih
    | _ => simp only [walk_sym, walk_bool, walk_nil, walk_pair]; exact .stop nofun

/-- A walk does not end among variables that are bound to one another. -/
theorem not_walkEnds_of_cycle {C : Set ℕ} (hC : ∀ n ∈ C, ∃ m ∈ C, s.get? n = some (.var m))
    (hn : n ∈ C) : ¬ WalkEnds s (.var n) w := by
  intro hw
  generalize hv : Value.var n = v at hw
  induction hw generalizing n with
  | stop hfree =>
    obtain ⟨m, -, hm⟩ := hC n hn
    rw [hfree n hv.symm] at hm
    cases hm
  | step hv' _ ih =>
    obtain rfl := Value.var.inj hv
    obtain ⟨m, hmem, hm⟩ := hC n hn
    rw [hm] at hv'
    exact ih hmem (Option.some.inj hv')

/-! ### Carrying bindings out -/

theorem Triangular.walkStar_of_walk (hs : s.Triangular) (h : s.walk v = w) :
    s.walkStar v = s.walkStar w := by
  rw [← hs.walkStar_walk v, h]

theorem Triangular.walkStar_pair (hs : s.Triangular) (car cdr : Value) :
    s.walkStar (.pair car cdr) = .pair (s.walkStar car) (s.walkStar cdr) := by
  rw [hs.walkStar_eq_bind, Value.bind_pair, ← hs.walkStar_eq_bind, ← hs.walkStar_eq_bind]

/-- What is left at the end of a walk stays if it is no pair. -/
theorem Triangular.walkStar_leaf (hs : s.Triangular) (h : s.walk v = w)
    (hw : ∀ car cdr, w ≠ .pair car cdr) : s.walkStar v = w := by
  rw [hs.walkStar_of_walk h]
  cases w with
  | var n => exact walkStar_var_of_none hs (hs.get?_of_walk_eq_var h)
  | pair car cdr => exact absurd rfl (hw car cdr)
  | _ => rw [hs.walkStar_eq_bind]; rfl

theorem WalkStarEnds.bound (hv : s.get? n = some v) (h : WalkStarEnds s v w) :
    WalkStarEnds s (.var n) w := by
  cases h with
  | leaf hwalk hw => exact .leaf (.step hv hwalk) hw
  | pair hwalk hcar hcdr => exact .pair (.step hv hwalk) hcar hcdr

theorem Resolves.walkStarEnds (h : s.Resolves k v w) : WalkStarEnds s v w := by
  induction h with
  | free hn => exact .leaf (walkEnds_var_of_none hn) nofun
  | bound hv _ ih => exact ih.bound hv
  | pair _ _ ihcar ihcdr => exact .pair (.stop nofun) ihcar ihcdr
  | _ => exact .leaf (.stop nofun) nofun

/-- In triangular bindings carrying them out always ends, and with what it computes. -/
theorem Triangular.walkStarEnds_iff (hs : s.Triangular) :
    WalkStarEnds s v w ↔ s.walkStar v = w := by
  constructor
  · intro h
    induction h with
    | leaf hwalk hw => exact hs.walkStar_leaf (hs.walkEnds_iff.1 hwalk) hw
    | pair hwalk _ _ ihcar ihcdr =>
      rw [hs.walkStar_of_walk (hs.walkEnds_iff.1 hwalk), hs.walkStar_pair, ihcar, ihcdr]
  · rintro rfl
    exact (hs.resolves v).walkStarEnds

/-! ### The occurs check -/

theorem OccursEnds.bound (hv : s.get? m = some v) (h : OccursEnds s n v b) :
    OccursEnds s n (.var m) b := by
  cases h with
  | var hwalk => exact .var (.step hv hwalk)
  | leaf hwalk hvar hpair => exact .leaf (.step hv hwalk) hvar hpair
  | car hwalk hcar => exact .car (.step hv hwalk) hcar
  | cdr hwalk hcar hcdr => exact .cdr (.step hv hwalk) hcar hcdr

theorem OccursEnds.pair {b' : Bool} (hcar : OccursEnds s n car b) (hcdr : OccursEnds s n cdr b') :
    OccursEnds s n (.pair car cdr) (b || b') := by
  cases b with
  | true => exact .car (.stop nofun) hcar
  | false => exact .cdr (.stop nofun) hcar hcdr

theorem Resolves.occursEnds (h : s.Resolves k v w) (n : ℕ) :
    OccursEnds s n v (decide (n ∈ w.vars)) := by
  induction h with
  | @free k m hm =>
    have hvar := OccursEnds.var (n := n) (walkEnds_var_of_none hm)
    rwa [show (m == n) = decide (n ∈ (Value.var m).vars) by simp [eq_comm, beq_eq_decide]] at hvar
  | bound hv _ ih => exact ih.bound hv
  | pair _ _ ihcar ihcdr => simpa using ihcar.pair ihcdr
  | _ => exact .leaf (.stop nofun) nofun nofun

/-- The occurs check finds a variable exactly in values that have it when all bindings are carried
out. -/
theorem OccursEnds.eq_true_iff (hs : s.Triangular) (h : OccursEnds s n v b) :
    b = true ↔ n ∈ (s.walkStar v).vars := by
  induction h with
  | var hwalk =>
    rw [hs.walkStar_leaf (hs.walkEnds_iff.1 hwalk) nofun, Value.vars_var, List.mem_singleton]
    exact beq_iff_eq.trans eq_comm
  | @leaf v w hwalk hvar hpair =>
    rw [hs.walkStar_leaf (hs.walkEnds_iff.1 hwalk) hpair]
    cases w with
    | var m => exact absurd rfl (hvar m)
    | pair car cdr => exact absurd rfl (hpair car cdr)
    | _ => simp [Value.vars]
  | car hwalk _ ih =>
    rw [hs.walkStar_of_walk (hs.walkEnds_iff.1 hwalk), hs.walkStar_pair, Value.vars_pair,
      List.mem_append, ← ih]
    simp
  | cdr hwalk _ _ ihcar ihcdr =>
    rw [hs.walkStar_of_walk (hs.walkEnds_iff.1 hwalk), hs.walkStar_pair, Value.vars_pair,
      List.mem_append, ← ihcar, ← ihcdr]
    simp

/-- In triangular bindings every occurs check ends, and with what it computes. -/
theorem Triangular.occursEnds_iff (hs : s.Triangular) :
    OccursEnds s n v b ↔ s.occurs n v = b := by
  constructor
  · intro h
    rw [Bool.eq_iff_iff, hs.occurs_iff, h.eq_true_iff hs]
  · rintro rfl
    have h := (hs.resolves v).occursEnds n
    rwa [show s.occurs n v = decide (n ∈ (s.walkStar v).vars) by
      rw [Bool.eq_iff_iff, hs.occurs_iff, decide_eq_true_iff]]

end Multiequation.Relational.Bindings
