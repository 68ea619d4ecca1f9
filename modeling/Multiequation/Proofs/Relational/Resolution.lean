import Multiequation.Proofs.Relational.Assignment

/-!
# Carrying bindings out

What a value becomes when all bindings are carried out is described by a relation first, together with
the depth at which its parts are found. In triangular bindings a path into a value enters every bound
value once at most, so the depth is bounded by the sizes of the value and of all bound values. Walking
a value completely and the occurs check compute what the relation describes.
-/

namespace Multiequation.Relational.Bindings

variable {s s' : Bindings} {θ : ℕ → Value} {k k' n m : ℕ} {v w : Value}

/-! ### The bindings below a rank -/

/-- The sum of `f` over the bindings of the variables that rank below `r`. -/
def load (s : Bindings) (rank : ℕ → ℕ) (f : ℕ × Value → ℕ) (r : ℕ) : ℕ :=
  (s.entries.map fun e => if rank e.1 < r then f e else 0).sum

/-- The binding of a variable counts above the rank of the variable only. -/
theorem load_add_le {rank : ℕ → ℕ} {f : ℕ × Value → ℕ} {r : ℕ} (hmem : (n, v) ∈ s.entries)
    (hr : rank n < r) : s.load rank f (rank n) + f (n, v) ≤ s.load rank f r := by
  have hmono : ∀ l : List (ℕ × Value),
      (l.map fun e => if rank e.1 < rank n then f e else 0).sum ≤
        (l.map fun e => if rank e.1 < r then f e else 0).sum := by
    refine fun l => List.sum_le_sum fun e _ => ?_
    split_ifs <;> omega
  obtain ⟨entries⟩ := s
  rw [load, load]
  induction entries with
  | nil => cases hmem
  | cons e l ih =>
    rw [List.map_cons, List.map_cons, List.sum_cons, List.sum_cons]
    rcases List.mem_cons.1 hmem with rfl | hmem
    · have := hmono l
      simp only [lt_irrefl, if_false, hr, if_true]
      omega
    · have := ih hmem
      dsimp only at this
      split_ifs <;> omega

theorem load_le {rank : ℕ → ℕ} {f : ℕ × Value → ℕ} {r : ℕ} :
    s.load rank f r ≤ (s.entries.map f).sum := by
  refine List.sum_le_sum fun e _ => ?_
  split_ifs <;> omega

theorem weight_eq (s : Bindings) : s.weight = (s.entries.map fun e => e.2.size + 1).sum := by
  rw [weight]
  induction s.entries with
  | nil => rfl
  | cons e l ih => rw [List.foldr_cons, ih, List.map_cons, List.sum_cons]

/-! ### Walking -/

@[simp] theorem walkWithin_var_of_none (h : s.get? n = none) :
    s.walkWithin k (.var n) = .var n := by
  cases k with
  | zero => rfl
  | succ k => simp [walkWithin, h]

/-- Walking passes the variables that rank below `r` once at most. -/
theorem walkWithin_congr {rank : ℕ → ℕ} (hrank : s.Ranks rank) {r : ℕ}
    (hr : ∀ n, v = .var n → rank n < r) (hk : s.load rank (fun _ => 1) r ≤ k)
    (hk' : s.load rank (fun _ => 1) r ≤ k') : s.walkWithin k v = s.walkWithin k' v := by
  induction r using Nat.strong_induction_on generalizing v k k' with
  | _ r ih =>
    cases v with
    | var n =>
      cases hv : s.get? n with
      | none => rw [walkWithin_var_of_none hv, walkWithin_var_of_none hv]
      | some w =>
        have hmem := mem_of_get? hv
        have hload := load_add_le (f := fun _ => 1) hmem (hr n rfl)
        obtain ⟨k, rfl⟩ : ∃ j, k = j + 1 := ⟨k - 1, by omega⟩
        obtain ⟨k', rfl⟩ : ∃ j, k' = j + 1 := ⟨k' - 1, by omega⟩
        simp only [walkWithin, hv]
        refine ih (rank n) (hr n rfl) ?_ (by omega) (by omega)
        rintro m rfl
        exact hrank _ hmem m (by simp)
    | _ => cases k <;> cases k' <;> rfl

theorem walk_var_of_none (h : s.get? n = none) : s.walk (.var n) = .var n :=
  walkWithin_var_of_none h

/-- A bound variable leads where its value leads. -/
theorem Triangular.walk_var_of_some (h : s.Triangular) (hv : s.get? n = some v) :
    s.walk (.var n) = s.walk v := by
  obtain ⟨rank, hrank⟩ := h.ranked
  have hmem := mem_of_get? hv
  have hload := load_add_le (f := fun _ => 1) hmem (Nat.lt_add_one (rank n))
  have hsize : s.load rank (fun _ => 1) (rank n + 1) ≤ s.size := by
    refine load_le.trans_eq ?_
    simp [size]
  rw [walk, walk]
  obtain ⟨k, hk⟩ : ∃ j, s.size = j + 1 := ⟨s.size - 1, by omega⟩
  rw [hk]
  have hstep : s.walkWithin (k + 1) (.var n) = s.walkWithin k v := by simp only [walkWithin, hv]
  rw [hstep]
  refine walkWithin_congr hrank (r := rank n) ?_ (by omega) (by omega)
  rintro m rfl
  exact hrank _ hmem m (by simp)

@[simp] theorem walk_sym (f : Symbol) : s.walk (.sym f) = .sym f := by
  rw [walk]
  cases s.size <;> rfl

@[simp] theorem walk_bool (b : Bool) : s.walk (.bool b) = .bool b := by
  rw [walk]
  cases s.size <;> rfl

@[simp] theorem walk_nil : s.walk .nil = .nil := by
  rw [walk]
  cases s.size <;> rfl

@[simp] theorem walk_pair (car cdr : Value) : s.walk (.pair car cdr) = .pair car cdr := by
  rw [walk]
  cases s.size <;> rfl

/-! ### What values become -/

/-- `w` is what `v` becomes when all bindings are carried out, and its parts are less than `k` deep. -/
inductive Resolves (s : Bindings) : ℕ → Value → Value → Prop
  | free {k n : ℕ} : s.get? n = none → Resolves s (k + 1) (.var n) (.var n)
  | bound {k n : ℕ} {v w : Value} : s.get? n = some v → Resolves s k v w → Resolves s k (.var n) w
  | sym {k : ℕ} {f : Symbol} : Resolves s (k + 1) (.sym f) (.sym f)
  | bool {k : ℕ} {b : Bool} : Resolves s (k + 1) (.bool b) (.bool b)
  | nil {k : ℕ} : Resolves s (k + 1) .nil .nil
  | pair {k : ℕ} {car cdr car' cdr' : Value} : Resolves s k car car' → Resolves s k cdr cdr' →
      Resolves s (k + 1) (.pair car cdr) (.pair car' cdr')

theorem Resolves.pos (h : s.Resolves k v w) : 0 < k := by
  induction h with
  | bound _ _ ih => exact ih
  | _ => exact Nat.succ_pos _

theorem Resolves.succ (h : s.Resolves k v w) : s.Resolves (k + 1) v w := by
  induction h with
  | free hn => exact .free hn
  | bound hv _ ih => exact .bound hv ih
  | sym => exact .sym
  | bool => exact .bool
  | nil => exact .nil
  | pair _ _ ihcar ihcdr => exact .pair ihcar ihcdr

theorem Resolves.mono (h : s.Resolves k v w) (hk : k ≤ k') : s.Resolves k' v w := by
  induction hk with
  | refl => exact h
  | step _ ih => exact ih.succ

/-- In triangular bindings every value becomes something. -/
theorem exists_resolves {rank : ℕ → ℕ} (hrank : s.Ranks rank) (r : ℕ) (v : Value)
    (hr : ∀ n ∈ v.vars, rank n < r) :
    ∃ w, s.Resolves (v.size + s.load rank (fun e => e.2.size + 1) r) v w := by
  induction r using Nat.strong_induction_on generalizing v with
  | _ r ih =>
    induction v with
    | var n =>
      have hn : rank n < r := hr n (by simp)
      cases hv : s.get? n with
      | none => exact ⟨.var n, Resolves.mono (k := 1) (.free hv) (by simp [Value.size])⟩
      | some v =>
        have hmem := mem_of_get? hv
        have hload := load_add_le (f := fun e => e.2.size + 1) hmem hn
        dsimp only at hload
        obtain ⟨w, hw⟩ := ih (rank n) hn v (hrank _ hmem)
        exact ⟨w, .bound hv (hw.mono (by omega))⟩
    | pair car cdr ihcar ihcdr =>
      rw [Value.vars_pair, List.forall_mem_append] at hr
      obtain ⟨car', hcar⟩ := ihcar hr.1
      obtain ⟨cdr', hcdr⟩ := ihcdr hr.2
      rw [Value.size_pair, Nat.add_right_comm]
      exact ⟨.pair car' cdr', .pair (hcar.mono (by omega)) (hcdr.mono (by omega))⟩
    | sym f => exact ⟨.sym f, Resolves.mono (k := 1) .sym (by simp [Value.size])⟩
    | bool b => exact ⟨.bool b, Resolves.mono (k := 1) .bool (by simp [Value.size])⟩
    | nil => exact ⟨.nil, Resolves.mono (k := 1) .nil (by simp [Value.size])⟩

theorem exists_rank_lt (rank : ℕ → ℕ) (v : Value) : ∃ r, ∀ n ∈ v.vars, rank n < r := by
  refine ⟨(v.vars.map rank).sum + 1, fun n hn => Nat.lt_succ_of_le ?_⟩
  exact List.single_le_sum (fun _ _ => Nat.zero_le _) _ (List.mem_map_of_mem hn)

theorem Triangular.resolves_of_le (h : s.Triangular) (v : Value) :
    ∃ w, s.Resolves (v.size + s.weight) v w := by
  obtain ⟨rank, hrank⟩ := h.ranked
  obtain ⟨r, hr⟩ := exists_rank_lt rank v
  obtain ⟨w, hw⟩ := exists_resolves hrank r v hr
  rw [weight_eq]
  exact ⟨w, hw.mono (Nat.add_le_add_left load_le _)⟩

/-- What a value becomes in more bindings is what the walked value becomes. -/
theorem Resolves.walk_of_suffix (h : s.Triangular) (h' : s'.Triangular)
    (hsuf : s.entries <:+ s'.entries) (hw : s'.Resolves k v w) : s'.Resolves k (s.walk v) w := by
  induction hw with
  | @free k n hn =>
    cases hv : s.get? n with
    | none =>
      rw [walk_var_of_none hv]
      exact .free hn
    | some v =>
      rw [h'.get?_of_suffix hsuf hv] at hn
      cases hn
  | @bound k n v w hv hw ih =>
    cases hv' : s.get? n with
    | none =>
      rw [walk_var_of_none hv']
      exact .bound hv hw
    | some v' =>
      rw [h'.get?_of_suffix hsuf hv'] at hv
      obtain rfl := Option.some.inj hv
      rw [h.walk_var_of_some hv']
      exact ih
  | sym => rw [walk_sym]; exact .sym
  | bool => rw [walk_bool]; exact .bool
  | nil => rw [walk_nil]; exact .nil
  | pair hcar hcdr => rw [walk_pair]; exact .pair hcar hcdr

/-! ### Computing what values become -/

theorem Triangular.walkStarWithin_eq (h : s.Triangular) (hw : s.Resolves k v w) :
    s.walkStarWithin k v = w := by
  induction hw with
  | free hn => rw [walkStarWithin, walk_var_of_none hn]
  | bound hv hw ih =>
    obtain ⟨k, rfl⟩ := Nat.exists_eq_add_one.2 hw.pos
    rw [walkStarWithin] at ih
    rw [walkStarWithin, h.walk_var_of_some hv, ih]
  | sym => rw [walkStarWithin, walk_sym]
  | bool => rw [walkStarWithin, walk_bool]
  | nil => rw [walkStarWithin, walk_nil]
  | pair _ _ ihcar ihcdr =>
    rw [walkStarWithin, walk_pair]
    dsimp only
    rw [ihcar, ihcdr]

theorem Triangular.occursWithin_iff (h : s.Triangular) (hw : s.Resolves k v w) :
    s.occursWithin n k v = true ↔ n ∈ w.vars := by
  induction hw with
  | free hm =>
    rw [occursWithin, walk_var_of_none hm, Value.vars_var, List.mem_singleton]
    exact beq_iff_eq.trans eq_comm
  | bound hv hw ih =>
    obtain ⟨k, rfl⟩ := Nat.exists_eq_add_one.2 hw.pos
    rw [occursWithin] at ih
    rw [occursWithin, h.walk_var_of_some hv, ih]
  | pair _ _ ihcar ihcdr => simp [occursWithin, ihcar, ihcdr]
  | _ => simp [occursWithin, Value.vars]

theorem Triangular.resolves (h : s.Triangular) (v : Value) :
    s.Resolves (v.size + s.weight) v (s.walkStar v) := by
  obtain ⟨w, hw⟩ := h.resolves_of_le v
  rw [walkStar, h.walkStarWithin_eq hw]
  exact hw

/-- A value becomes one value only. -/
theorem Triangular.walkStar_eq (h : s.Triangular) (hw : s.Resolves k v w) : s.walkStar v = w := by
  have hmax := (h.resolves v).mono (le_max_left (v.size + s.weight) k)
  rw [← h.walkStarWithin_eq hmax]
  exact h.walkStarWithin_eq (hw.mono (le_max_right _ _))

/-- The occurs check looks for the variable in what the value becomes. -/
theorem Triangular.occurs_iff (h : s.Triangular) :
    s.occurs n v = true ↔ n ∈ (s.walkStar v).vars :=
  h.occursWithin_iff (h.resolves v)

theorem Triangular.walkStar_walk (h : s.Triangular) (v : Value) :
    s.walkStar (s.walk v) = s.walkStar v :=
  h.walkStar_eq ((h.resolves v).walk_of_suffix h h List.suffix_rfl)

theorem walkStar_var_of_none (h : s.Triangular) (hn : s.get? n = none) :
    s.walkStar (.var n) = .var n :=
  h.walkStar_eq (k := 1) (.free hn)

theorem Triangular.walkStar_var_of_some (h : s.Triangular) (hv : s.get? n = some v) :
    s.walkStar (.var n) = s.walkStar v :=
  h.walkStar_eq (.bound hv (h.resolves v))

/-- A value becomes what it is when each variable is replaced by what the variable becomes. -/
theorem Triangular.walkStar_eq_bind (h : s.Triangular) (v : Value) :
    s.walkStar v = v.bind fun n => s.walkStar (.var n) := by
  induction v with
  | var n => rfl
  | sym f => exact h.walkStar_eq (k := 1) .sym
  | bool b => exact h.walkStar_eq (k := 1) .bool
  | nil => exact h.walkStar_eq (k := 1) .nil
  | pair car cdr ihcar ihcdr =>
    rw [Value.bind_pair, ← ihcar, ← ihcdr]
    have hcar := (h.resolves car).mono (le_max_left _ (cdr.size + s.weight))
    have hcdr := (h.resolves cdr).mono (le_max_right (car.size + s.weight) _)
    exact h.walkStar_eq (.pair hcar hcdr)

/-- What every variable becomes satisfies the bindings. -/
theorem Triangular.satisfies_walkStar (h : s.Triangular) :
    Satisfies (fun n => s.walkStar (.var n)) s := by
  rintro ⟨n, v⟩ hmem
  rw [← h.walkStar_eq_bind]
  exact h.walkStar_var_of_some (h.get?_of_mem hmem)

/-- An assignment that satisfies the bindings does not see them being carried out. -/
theorem Resolves.bind_eq (hw : s.Resolves k v w) (hθ : Satisfies θ s) : w.bind θ = v.bind θ := by
  induction hw with
  | bound hv _ ih => exact ih.trans (hθ _ (mem_of_get? hv)).symm
  | pair _ _ ihcar ihcdr => rw [Value.bind_pair, Value.bind_pair, ihcar, ihcdr]
  | _ => rfl

theorem Triangular.bind_walkStar (h : s.Triangular) (hθ : Satisfies θ s) (v : Value) :
    (s.walkStar v).bind θ = v.bind θ :=
  (h.resolves v).bind_eq hθ

theorem Triangular.bind_walk (h : s.Triangular) (hθ : Satisfies θ s) (v : Value) :
    (s.walk v).bind θ = v.bind θ := by
  rw [← h.bind_walkStar hθ (s.walk v), h.walkStar_walk, h.bind_walkStar hθ]

/-- A walk ends in a variable that is not bound or in a value that is not a variable. -/
theorem Triangular.get?_of_walk_eq_var (h : s.Triangular) (hw : s.walk v = .var n) :
    s.get? n = none := by
  obtain ⟨w, hres⟩ := h.resolves_of_le v
  generalize v.size + s.weight = k at hres
  induction hres with
  | free hm =>
    rw [walk_var_of_none hm] at hw
    obtain rfl := Value.var.inj hw
    exact hm
  | bound hv _ ih =>
    rw [h.walk_var_of_some hv] at hw
    exact ih hw
  | _ => simp at hw

/-- A walk ends in the value or in a bound value. -/
theorem walk_mem {P : Value → Prop} (hs : ∀ e ∈ s.entries, P e.2) (hv : P v) : P (s.walk v) := by
  have hwithin : ∀ k v, P v → P (s.walkWithin k v) := by
    intro k
    induction k with
    | zero => exact fun v hv => hv
    | succ k ih =>
      intro v hv
      cases v with
      | var n =>
        cases hn : s.get? n with
        | none => rwa [walkWithin_var_of_none hn]
        | some v =>
          simp only [walkWithin, hn]
          exact ih v (hs _ (mem_of_get? hn))
      | _ => exact hv
  exact hwithin s.size v hv

/-- A variable may be bound to a value in which it does not occur. The variables that reach it move
above those of the value. -/
theorem Triangular.extend (h : s.Triangular) (hn : s.get? n = none) (hv : n ∉ (s.walkStar v).vars) :
    (s.extend n v).Triangular := by
  refine ⟨List.nodup_cons.2 ⟨get?_eq_none.1 hn, h.nodup⟩, ?_⟩
  obtain ⟨rank, hrank⟩ := h.ranked
  obtain ⟨r, hr⟩ := exists_rank_lt rank v
  refine ⟨fun m => rank m + if n ∈ (s.walkStar (.var m)).vars then r else 0,
    List.forall_mem_cons.2 ⟨fun m hm => ?_, ?_⟩⟩
  · have hnot : n ∉ (s.walkStar (.var m)).vars := by
      rw [h.walkStar_eq_bind, Value.mem_vars_bind] at hv
      exact fun hmem => hv ⟨m, hm, hmem⟩
    have := hr m hm
    simp only [hnot, if_false, walkStar_var_of_none h hn, Value.vars_var, List.mem_singleton, if_true]
    omega
  · rintro ⟨n', v'⟩ hmem m hm
    have hlt := hrank _ hmem m hm
    have hreach : n ∈ (s.walkStar (.var m)).vars → n ∈ (s.walkStar (.var n')).vars := by
      intro hnm
      rw [h.walkStar_var_of_some (h.get?_of_mem hmem), h.walkStar_eq_bind, Value.mem_vars_bind]
      exact ⟨m, hm, hnm⟩
    dsimp only at hlt ⊢
    split_ifs with hnm hnn'
    · omega
    · exact absurd (hreach hnm) hnn'
    · omega
    · exact hlt

end Multiequation.Relational.Bindings
