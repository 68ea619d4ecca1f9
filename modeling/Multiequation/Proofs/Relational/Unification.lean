import Multiequation.Proofs.Relational.Evaluation

/-!
# Unification by bindings

A successful unification extends the bindings by what makes the two values equal and by nothing else.
A failed one has found a variable inside its own value, or two values that no assignment makes equal.
Both are read off the rules for unification, which know no depth; in triangular bindings they derive for
all values what is computed within the depth that is granted. That this depth is enough is seen in any
bindings that unification may still reach: the variables and the sizes of the bound values do not grow,
and a path into the first value is followed in the bindings that are there at its end.
-/

namespace Multiequation.Relational

namespace Value

/-- Values that are no variables and not both pairs become equal if they are equal only. -/
theorem bind_ne {θ : ℕ → Value} {u v : Value} (hu : ∀ m, u ≠ .var m) (hv : ∀ n, v ≠ .var n)
    (hpairs : ¬ ((∃ car cdr, u = .pair car cdr) ∧ ∃ car cdr, v = .pair car cdr)) (hne : u ≠ v) :
    u.bind θ ≠ v.bind θ := by
  cases u <;> cases v <;> simp_all [Value.bind]

/-- The variables of a value are among `V`, and its size is `M` at most. -/
structure Within (V : Finset ℕ) (M : ℕ) (v : Value) : Prop where
  vars : ∀ n ∈ v.vars, n ∈ V
  size : v.size ≤ M

theorem within_pair {V : Finset ℕ} {M : ℕ} {car cdr : Value}
    (h : (pair car cdr).Within V M) : car.Within V M ∧ cdr.Within V M := by
  obtain ⟨hvars, hsize⟩ := h
  rw [vars_pair, List.forall_mem_append] at hvars
  rw [size_pair] at hsize
  exact ⟨⟨hvars.1, by omega⟩, hvars.2, by omega⟩

end Value

namespace Bindings

variable {s s' : Bindings} {θ : ℕ → Value} {k n m M : ℕ} {u v w car cdr car' cdr' : Value}
  {V : Finset ℕ} {r : Option Bindings}

/-! ### One step -/

theorem unifyWithin_of_var_left (hu : s.walk u = .var m) :
    unifyWithin (k + 1) u v s =
      if s.walk v = .var m then some s else s.extendChecked m (s.walk v) := by
  rw [unifyWithin, hu]
  cases s.walk v <;> simp [eq_comm]

theorem unifyWithin_of_var_right (hu : ∀ m, s.walk u ≠ .var m) (hv : s.walk v = .var n) :
    unifyWithin (k + 1) u v s = s.extendChecked n (s.walk u) := by
  rw [unifyWithin, hv]
  cases h : s.walk u with
  | var m => exact absurd h (hu m)
  | _ => rfl

theorem unifyWithin_of_pairs (hu : s.walk u = .pair car cdr) (hv : s.walk v = .pair car' cdr') :
    unifyWithin (k + 1) u v s = (unifyWithin k car car' s).bind (unifyWithin k cdr cdr') := by
  rw [unifyWithin, hu, hv]
  rfl

theorem unifyWithin_of_not_pairs (hu : ∀ m, s.walk u ≠ .var m) (hv : ∀ n, s.walk v ≠ .var n)
    (hpairs : ¬ ((∃ car cdr, s.walk u = .pair car cdr) ∧ ∃ car cdr, s.walk v = .pair car cdr)) :
    unifyWithin (k + 1) u v s = if s.walk u = s.walk v then some s else none := by
  rw [unifyWithin]
  cases hu' : s.walk u <;> cases hv' : s.walk v <;> simp_all

/-! ### What unification does -/

/-- The second bindings come from the first by unifying the two values. -/
inductive Unified : Value → Value → Bindings → Bindings → Prop
  | same {u v : Value} {s : Bindings} : s.walk u = s.walk v → Unified u v s s
  | left {u v : Value} {s : Bindings} {m : ℕ} : s.walk u = .var m →
      s.occurs m (s.walk v) = false → Unified u v s (s.extend m (s.walk v))
  | right {u v : Value} {s : Bindings} {n : ℕ} : s.walk v = .var n →
      s.occurs n (s.walk u) = false → Unified u v s (s.extend n (s.walk u))
  | pair {u v car cdr car' cdr' : Value} {s s₁ s₂ : Bindings} : s.walk u = .pair car cdr →
      s.walk v = .pair car' cdr' → Unified car car' s s₁ → Unified cdr cdr' s₁ s₂ →
      Unified u v s s₂

/-- The two values differ whatever the variables that are not bound stand for. -/
inductive Refuted : Value → Value → Bindings → Prop
  | left {u v : Value} {s : Bindings} {m : ℕ} : s.walk u = .var m → s.walk v ≠ .var m →
      s.occurs m (s.walk v) = true → Refuted u v s
  | right {u v : Value} {s : Bindings} {n : ℕ} : s.walk v = .var n → s.walk u ≠ .var n →
      s.occurs n (s.walk u) = true → Refuted u v s
  | clash {u v : Value} {s : Bindings} : (∀ θ, (s.walk u).bind θ ≠ (s.walk v).bind θ) →
      Refuted u v s
  | car {u v car cdr car' cdr' : Value} {s : Bindings} : s.walk u = .pair car cdr →
      s.walk v = .pair car' cdr' → Refuted car car' s → Refuted u v s
  | cdr {u v car cdr car' cdr' : Value} {s s₁ : Bindings} : s.walk u = .pair car cdr →
      s.walk v = .pair car' cdr' → Unified car car' s s₁ → Refuted cdr cdr' s₁ → Refuted u v s

theorem Triangular.extend_walked (h : s.Triangular) (hu : s.walk u = .var n)
    (hocc : s.occurs n v = false) : (s.extend n v).Triangular := by
  refine h.extend (h.get?_of_walk_eq_var hu) fun hmem => ?_
  rw [h.occurs_iff.2 hmem] at hocc
  cases hocc

theorem Unified.triangular (h : Unified u v s s') (hs : s.Triangular) : s'.Triangular := by
  induction h with
  | same _ => exact hs
  | left hu hocc => exact hs.extend_walked hu hocc
  | right hv hocc => exact hs.extend_walked hv hocc
  | pair _ _ _ _ ihcar ihcdr => exact ihcdr (ihcar hs)

/-- New bindings stand in front of the old ones. -/
theorem Unified.suffix (h : Unified u v s s') : s.entries <:+ s'.entries := by
  induction h with
  | same _ => exact List.suffix_rfl
  | left _ _ => exact List.suffix_cons _ _
  | right _ _ => exact List.suffix_cons _ _
  | pair _ _ _ _ ihcar ihcdr => exact ihcar.trans ihcdr

/-- The new bindings say that the two values are equal, and no more. -/
theorem Unified.satisfies_iff (h : Unified u v s s') (hs : s.Triangular) :
    Satisfies θ s' ↔ Satisfies θ s ∧ u.bind θ = v.bind θ := by
  induction h with
  | same heq =>
    refine (and_iff_left_of_imp fun hθ => ?_).symm
    rw [← hs.bind_walk hθ, heq, hs.bind_walk hθ]
  | @left u v s m hu _ =>
    rw [satisfies_extend, and_comm]
    refine and_congr_right fun hθ => ?_
    rw [hs.bind_walk hθ, ← hs.bind_walk hθ u, hu, Value.bind_var]
  | @right u v s n hv _ =>
    rw [satisfies_extend, and_comm]
    refine and_congr_right fun hθ => ?_
    rw [hs.bind_walk hθ, ← hs.bind_walk hθ v, hv, Value.bind_var, eq_comm]
  | @pair u v car cdr car' cdr' s s₁ s₂ hu hv hcar _ ihcar ihcdr =>
    rw [ihcdr (hcar.triangular hs), ihcar hs, and_assoc]
    refine and_congr_right fun hθ => ?_
    rw [← hs.bind_walk hθ u, ← hs.bind_walk hθ v, hu, hv, Value.bind_pair, Value.bind_pair,
      Value.pair.injEq]

/-- Only a walk that ends in a variable becomes a variable. -/
theorem Resolves.walk_eq_var (hw : s.Resolves k v (.var n)) (h : s.Triangular) :
    s.walk v = .var n := by
  generalize hvar : Value.var n = w at hw
  induction hw with
  | free hm => exact walk_var_of_none hm
  | bound hm _ ih => exact (h.walk_var_of_some hm).trans (ih hvar)
  | _ => cases hvar

/-- A variable that occurs in a value becomes equal to it in no assignment. -/
theorem Triangular.bind_ne_of_occurs (h : s.Triangular) (hθ : Satisfies θ s)
    (hne : s.walk v ≠ .var n) (hocc : s.occurs n (s.walk v) = true) :
    θ n ≠ v.bind θ := by
  rw [h.occurs_iff, h.walkStar_walk] at hocc
  rw [← h.bind_walkStar hθ v]
  refine Value.bind_ne_of_mem_vars hocc fun hvar => hne ?_
  have hres := h.resolves v
  rw [hvar] at hres
  exact hres.walk_eq_var h

/-- Values that are refuted differ in every assignment that satisfies the bindings. -/
theorem Refuted.bind_ne (h : Refuted u v s) (hs : s.Triangular) (hθ : Satisfies θ s) :
    u.bind θ ≠ v.bind θ := by
  induction h with
  | @left u v s m hu hne hocc =>
    rw [← hs.bind_walk hθ u, hu]
    exact hs.bind_ne_of_occurs hθ hne hocc
  | @right u v s n hv hne hocc =>
    rw [← hs.bind_walk hθ v, hv]
    exact (hs.bind_ne_of_occurs hθ hne hocc).symm
  | @clash u v s hne =>
    rw [← hs.bind_walk hθ u, ← hs.bind_walk hθ v]
    exact hne θ
  | @car u v car cdr car' cdr' s hu hv _ ih =>
    rw [← hs.bind_walk hθ u, ← hs.bind_walk hθ v, hu, hv]
    exact fun heq => ih hs hθ (Value.pair.inj heq).1
  | @cdr u v car cdr car' cdr' s s₁ hu hv hcar _ ih =>
    rw [← hs.bind_walk hθ u, ← hs.bind_walk hθ v, hu, hv]
    intro heq
    obtain ⟨hfst, hsnd⟩ := Value.pair.inj heq
    exact ih (hcar.triangular hs) ((hcar.satisfies_iff hs).2 ⟨hθ, hfst⟩) hsnd

/-! ### The depth is enough -/

/-- The bound variables are among `V`, and so are the variables of the bound values, whose size is `M`
at most. -/
def Within (V : Finset ℕ) (M : ℕ) (s : Bindings) : Prop :=
  ∀ e ∈ s.entries, e.1 ∈ V ∧ e.2.Within V M

theorem Within.walk (hs : s.Within V M) (hv : v.Within V M) : (s.walk v).Within V M :=
  walk_mem (fun e he => (hs e he).2) hv

theorem Within.extend_walked (hs : s.Within V M) (hu : u.Within V M) (hv : v.Within V M)
    (hn : s.walk u = .var n) : (s.extend n (s.walk v)).Within V M := by
  have hwalk := hs.walk hu
  rw [hn] at hwalk
  exact List.forall_mem_cons.2 ⟨⟨hwalk.vars n (by simp), hs.walk hv⟩, hs⟩

theorem Unified.within (h : Unified u v s s') (hs : s.Within V M) (hu : u.Within V M)
    (hv : v.Within V M) : s'.Within V M := by
  induction h with
  | same _ => exact hs
  | left hn _ => exact hs.extend_walked hu hv hn
  | right hn _ => exact hs.extend_walked hv hu hn
  | pair hwu hwv _ _ ihcar ihcdr =>
    have hu := hs.walk hu
    have hv := hs.walk hv
    rw [hwu] at hu
    rw [hwv] at hv
    obtain ⟨hcar, hcdr⟩ := Value.within_pair hu
    obtain ⟨hcar', hcdr'⟩ := Value.within_pair hv
    exact ihcdr (ihcar hs hcar hcar') hcdr hcdr'

/-- As many variables are bound as there are, and each to a value that is not too large. -/
theorem Within.weight_le (h : s.Within V M) (hs : s.Triangular) : s.weight ≤ V.card * (M + 1) := by
  have hlength : s.entries.length ≤ V.card := by
    have hsub : (s.entries.map Prod.fst).toFinset ⊆ V := by
      intro n hn
      obtain ⟨e, he, rfl⟩ := List.mem_map.1 (List.mem_toFinset.1 hn)
      exact (h e he).1
    have := Finset.card_le_card hsub
    rwa [List.toFinset_card_of_nodup hs.nodup, List.length_map] at this
  have hsum : s.weight ≤ s.entries.length * (M + 1) := by
    rw [weight_eq, ← List.length_map (fun e : ℕ × Value => e.2.size + 1), ← smul_eq_mul]
    refine List.sum_le_card_nsmul _ _ fun c hc => ?_
    obtain ⟨e, he, rfl⟩ := List.mem_map.1 hc
    exact Nat.succ_le_succ (h e he).2.size
  exact hsum.trans (Nat.mul_le_mul_right _ hlength)

/-- In all bindings that may come from the given ones, the parts of the value are less than `k`
deep. -/
def Reaches (V : Finset ℕ) (M k : ℕ) (v : Value) (s : Bindings) : Prop :=
  ∀ s' : Bindings, s.entries <:+ s'.entries → s'.Triangular → s'.Within V M →
    ∃ w, s'.Resolves k v w

theorem Reaches.of_suffix (h : Reaches V M k v s) (hsuf : s.entries <:+ s'.entries) :
    Reaches V M k v s' :=
  fun s'' hsuf' => h s'' (hsuf.trans hsuf')

theorem Reaches.parts (h : Reaches V M (k + 1) v s) (hs : s.Triangular)
    (hv : s.walk v = .pair car cdr) : Reaches V M k car s ∧ Reaches V M k cdr s := by
  have hparts : ∀ s' : Bindings, s.entries <:+ s'.entries → s'.Triangular → s'.Within V M →
      ∃ w w', s'.Resolves k car w ∧ s'.Resolves k cdr w' := by
    intro s' hsuf hs' hin
    obtain ⟨w, hw⟩ := h s' hsuf hs' hin
    have hwalk := hw.walk_of_suffix hs hs' hsuf
    rw [hv] at hwalk
    cases hwalk with
    | pair hcar hcdr => exact ⟨_, _, hcar, hcdr⟩
  refine ⟨fun s' hsuf hs' hin => ?_, fun s' hsuf hs' hin => ?_⟩
  · obtain ⟨w, _, hw, -⟩ := hparts s' hsuf hs' hin
    exact ⟨w, hw⟩
  · obtain ⟨_, w, -, hw⟩ := hparts s' hsuf hs' hin
    exact ⟨w, hw⟩

/-- Unification gives bindings, or it refutes the two values. -/
def Decides (u v : Value) (s : Bindings) (result : Option Bindings) : Prop :=
  match result with
  | some s' => Unified u v s s'
  | none => Refuted u v s

/-- Pairs are decided part by part. -/
theorem decides_bind {result : Option Bindings} {next : Bindings → Option Bindings}
    (hu : s.walk u = .pair car cdr) (hv : s.walk v = .pair car' cdr')
    (hcar : Decides car car' s result)
    (hcdr : ∀ s₁, result = some s₁ → Unified car car' s s₁ → Decides cdr cdr' s₁ (next s₁)) :
    Decides u v s (result.bind next) := by
  cases result with
  | none => exact .car hu hv hcar
  | some s₁ =>
    have hnext := hcdr s₁ rfl hcar
    rw [Option.bind_some]
    cases hr : next s₁ with
    | none =>
      rw [hr] at hnext
      exact .cdr hu hv hcar hnext
    | some s₂ =>
      rw [hr] at hnext
      exact .pair hu hv hcar hnext

/-- What is derived is decided. -/
theorem UnifyEnds.decides (h : UnifyEnds u v s r) (hs : s.Triangular) : Decides u v s r := by
  induction h with
  | same hwu hwv =>
    rw [hs.walkEnds_iff] at hwu hwv
    exact .same (hwu.trans hwv.symm)
  | @left u v w s m b hwu hwv hne hocc =>
    rw [hs.walkEnds_iff] at hwu hwv
    rw [hs.occursEnds_iff] at hocc
    subst hwv
    cases b with
    | true => exact .left hwu hne hocc
    | false => exact .left hwu hocc
  | @right u v w s n b hwu hvar hwv hocc =>
    rw [hs.walkEnds_iff] at hwu hwv
    rw [hs.occursEnds_iff] at hocc
    subst hwu
    cases b with
    | true => exact .right hwv (hvar n) hocc
    | false => exact .right hwv hocc
  | pair hwu hwv _ _ ihcar ihcdr =>
    rw [hs.walkEnds_iff] at hwu hwv
    refine decides_bind hwu hwv (ihcar hs) fun s₁ hr hfst => ?_
    exact ihcdr s₁ hr (hfst.triangular hs)
  | leaf hwu hwv hvaru hvarv hpairs =>
    rw [hs.walkEnds_iff] at hwu hwv
    subst hwu hwv
    split_ifs with heq
    · exact .same heq
    · exact .clash fun θ => Value.bind_ne hvaru hvarv hpairs heq

/-- Unification is granted a depth `k` that it does not use up. -/
structure Enough (V : Finset ℕ) (M k : ℕ) (u v : Value) (s : Bindings) : Prop where
  triangular : s.Triangular
  within : s.Within V M
  left : u.Within V M
  right : v.Within V M
  reaches : Reaches V M k u s

namespace Enough

theorem exists_succ (h : Enough V M k u v s) : ∃ j, k = j + 1 := by
  obtain ⟨w, hw⟩ := h.reaches s List.suffix_rfl h.triangular h.within
  exact Nat.exists_eq_add_one.2 hw.pos

theorem first (h : Enough V M (k + 1) u v s) (hu : s.walk u = .pair car cdr)
    (hv : s.walk v = .pair car' cdr') : Enough V M k car car' s :=
  ⟨h.triangular, h.within, (Value.within_pair (hu ▸ h.within.walk h.left)).1,
    (Value.within_pair (hv ▸ h.within.walk h.right)).1, (h.reaches.parts h.triangular hu).1⟩

/-- What is left of the depth for the second parts is enough in the bindings made for the first ones. -/
theorem second (h : Enough V M (k + 1) u v s) (hu : s.walk u = .pair car cdr)
    (hv : s.walk v = .pair car' cdr') (hr : UnifyEnds car car' s (some s')) :
    Enough V M k cdr cdr' s' := by
  have hfst : Unified car car' s s' := hr.decides h.triangular
  have hcar := h.first hu hv
  exact ⟨hfst.triangular h.triangular, hfst.within h.within hcar.left hcar.right,
    (Value.within_pair (hu ▸ h.within.walk h.left)).2,
    (Value.within_pair (hv ▸ h.within.walk h.right)).2,
    (h.reaches.parts h.triangular hu).2.of_suffix hfst.suffix⟩

/-- The rules derive what is computed. -/
theorem unifyEnds (h : Enough V M k u v s) : UnifyEnds u v s (unifyWithin k u v s) := by
  induction k generalizing u v s with
  | zero =>
    obtain ⟨j, hj⟩ := h.exists_succ
    cases hj
  | succ k ih =>
    have hs := h.triangular
    have hwu : WalkEnds s u (s.walk u) := hs.walkEnds_iff.2 rfl
    have hwv : WalkEnds s v (s.walk v) := hs.walkEnds_iff.2 rfl
    by_cases hvaru : ∃ m, s.walk u = .var m
    · obtain ⟨m, hm⟩ := hvaru
      rw [unifyWithin_of_var_left hm]
      split_ifs with heq
      · exact .same (hm ▸ hwu) (heq ▸ hwv)
      · exact .left (hm ▸ hwu) hwv heq (hs.occursEnds_iff.2 rfl)
    rw [not_exists] at hvaru
    by_cases hvarv : ∃ n, s.walk v = .var n
    · obtain ⟨n, hn⟩ := hvarv
      rw [unifyWithin_of_var_right hvaru hn]
      exact .right hwu hvaru (hn ▸ hwv) (hs.occursEnds_iff.2 rfl)
    rw [not_exists] at hvarv
    by_cases hpairs : (∃ car cdr, s.walk u = .pair car cdr) ∧ ∃ car cdr, s.walk v = .pair car cdr
    · obtain ⟨⟨car, cdr, hu⟩, car', cdr', hv⟩ := hpairs
      rw [unifyWithin_of_pairs hu hv]
      have hcar := ih (h.first hu hv)
      exact .pair (hu ▸ hwu) (hv ▸ hwv) hcar fun s₁ hr => ih (h.second hu hv (hr ▸ hcar))
    · rw [unifyWithin_of_not_pairs hvaru hvarv hpairs]
      exact .leaf hwu hwv hvaru hvarv hpairs

end Enough

/-- What the rules derive is computed. -/
theorem UnifyEnds.unifyWithin_eq (h : UnifyEnds u v s r) (henough : Enough V M k u v s) :
    unifyWithin k u v s = r := by
  induction h generalizing k with
  | same hwu hwv =>
    obtain ⟨k, rfl⟩ := henough.exists_succ
    have hs := henough.triangular
    rw [hs.walkEnds_iff] at hwu hwv
    rw [unifyWithin_of_var_left hwu, if_pos hwv]
  | left hwu hwv hne hocc =>
    obtain ⟨k, rfl⟩ := henough.exists_succ
    have hs := henough.triangular
    rw [hs.walkEnds_iff] at hwu hwv
    rw [hs.occursEnds_iff] at hocc
    rw [unifyWithin_of_var_left hwu, hwv, if_neg hne, extendChecked, hocc]
  | right hwu hvar hwv hocc =>
    obtain ⟨k, rfl⟩ := henough.exists_succ
    have hs := henough.triangular
    rw [hs.walkEnds_iff] at hwu hwv
    rw [hs.occursEnds_iff] at hocc
    rw [unifyWithin_of_var_right (by rwa [hwu]) hwv, hwu, extendChecked, hocc]
  | @pair u v car cdr car' cdr' s r next hwu hwv hends _ ihcar ihcdr =>
    obtain ⟨k, rfl⟩ := henough.exists_succ
    have hs := henough.triangular
    rw [hs.walkEnds_iff] at hwu hwv
    rw [unifyWithin_of_pairs hwu hwv, ihcar (henough.first hwu hwv)]
    cases r with
    | none => rfl
    | some s₁ => exact ihcdr s₁ rfl (henough.second hwu hwv hends)
  | leaf hwu hwv hvaru hvarv hpairs =>
    obtain ⟨k, rfl⟩ := henough.exists_succ
    have hs := henough.triangular
    rw [hs.walkEnds_iff] at hwu hwv
    rw [unifyWithin_of_not_pairs (by rwa [hwu]) (by rwa [hwv]) (by rwa [hwu, hwv]), hwu, hwv]

/-- The variables of the two values and of the bindings. -/
def allVars (u v : Value) (s : Bindings) : List ℕ :=
  u.vars ++ v.vars ++ s.entries.flatMap fun e => e.1 :: e.2.vars

theorem length_allVars_le : (allVars u v s).length ≤ u.size + v.size + s.weight := by
  have hu := u.length_vars_le
  have hv := v.length_vars_le
  have hs : (s.entries.flatMap fun e => e.1 :: e.2.vars).length ≤ s.weight := by
    rw [weight_eq, List.length_flatMap]
    refine List.sum_le_sum fun e _ => ?_
    have := e.2.length_vars_le
    rw [List.length_cons]
    omega
  rw [allVars, List.length_append, List.length_append]
  omega

theorem size_le_weight {e : ℕ × Value} (he : e ∈ s.entries) : e.2.size ≤ s.weight := by
  have := List.single_le_sum (l := s.entries.map fun e => e.2.size + 1) (fun _ _ => Nat.zero_le _) _
    (List.mem_map_of_mem he)
  rw [weight_eq]
  omega

/-- The depth granted to unification is enough in all bindings that it may reach. -/
theorem exists_reaches (u v : Value) (s : Bindings) :
    ∃ V M, s.Within V M ∧ u.Within V M ∧ v.Within V M ∧
      Reaches V M ((u.size + v.size + s.weight + 1) * (u.size + v.size + s.weight + 1)) u s := by
  let V := (allVars u v s).toFinset
  let M := u.size + v.size + s.weight
  have hcard : V.card ≤ M := (List.toFinset_card_le _).trans length_allVars_le
  have hu : u.Within V M := ⟨fun n hn => by simp [V, allVars, hn], by omega⟩
  have hv : v.Within V M := ⟨fun n hn => by simp [V, allVars, hn], by omega⟩
  have hin : s.Within V M := by
    intro e he
    have hsub : ∀ n ∈ e.1 :: e.2.vars, n ∈ V := fun n hn => by
      simp only [V, allVars, List.mem_toFinset, List.mem_append, List.mem_flatMap]
      exact .inr ⟨e, he, hn⟩
    have := size_le_weight he
    exact ⟨hsub _ List.mem_cons_self, fun n hn => hsub n (List.mem_cons_of_mem _ hn), by omega⟩
  refine ⟨V, M, hin, hu, hv, fun s' _ hs' hin' => ⟨_, (hs'.resolves u).mono ?_⟩⟩
  calc u.size + s'.weight ≤ M + V.card * (M + 1) :=
        Nat.add_le_add (by omega) (hin'.weight_le hs')
    _ ≤ M + M * (M + 1) := by gcongr
    _ ≤ (M + 1) * (M + 1) := by
        rw [Nat.succ_mul]
        omega

/-- In triangular bindings every unification ends, and with what it computes. -/
theorem Triangular.unifyEnds_iff (hs : s.Triangular) : UnifyEnds u v s r ↔ unify u v s = r := by
  obtain ⟨V, M, hin, hu, hv, hk⟩ := exists_reaches u v s
  have henough : Enough V M _ u v s := ⟨hs, hin, hu, hv, hk⟩
  constructor
  · exact fun h => h.unifyWithin_eq henough
  · rintro rfl
    exact henough.unifyEnds

/-- Unification in triangular bindings gives bindings or refutes the values. -/
theorem Triangular.unify_decides (hs : s.Triangular) (u v : Value) :
    Decides u v s (unify u v s) :=
  (hs.unifyEnds_iff.2 rfl).decides hs

/-! ### Several pairs -/

/-- The second bindings come from the first by unifying pair after pair. -/
inductive UnifiedAll : List (Value × Value) → Bindings → Bindings → Prop
  | nil {s : Bindings} : UnifiedAll [] s s
  | cons {p : Value × Value} {ps : List (Value × Value)} {s s₁ s₂ : Bindings} :
      Unified p.1 p.2 s s₁ → UnifiedAll ps s₁ s₂ → UnifiedAll (p :: ps) s s₂

variable {ps : List (Value × Value)}

theorem UnifiedAll.triangular (h : UnifiedAll ps s s') (hs : s.Triangular) : s'.Triangular := by
  induction h with
  | nil => exact hs
  | cons hp _ ih => exact ih (hp.triangular hs)

/-- The new bindings say that the values of each pair are equal, and no more. -/
theorem UnifiedAll.satisfies_iff (h : UnifiedAll ps s s') (hs : s.Triangular) :
    Satisfies θ s' ↔ Satisfies θ s ∧ ∀ p ∈ ps, p.1.bind θ = p.2.bind θ := by
  induction h with
  | nil => exact (and_iff_left (List.forall_mem_nil _)).symm
  | cons hp _ ih => rw [ih (hp.triangular hs), hp.satisfies_iff hs, List.forall_mem_cons, and_assoc]

/-- Unifying pair after pair gives bindings, or no assignment makes the values of all pairs equal. -/
theorem Triangular.foldlM_unify (hs : s.Triangular) (ps : List (Value × Value)) :
    (∃ s', ps.foldlM (fun s p => unify p.1 p.2 s) s = some s' ∧ UnifiedAll ps s s') ∨
    ps.foldlM (fun s p => unify p.1 p.2 s) s = none ∧
      ∀ θ, Satisfies θ s → ¬ ∀ p ∈ ps, p.1.bind θ = p.2.bind θ := by
  induction ps generalizing s with
  | nil => exact .inl ⟨s, rfl, .nil⟩
  | cons p ps ih =>
    rw [List.foldlM_cons]
    have hp := hs.unify_decides p.1 p.2
    cases hr : unify p.1 p.2 s with
    | none =>
      rw [hr] at hp
      exact .inr ⟨rfl, fun θ hθ hall => hp.bind_ne hs hθ (hall p List.mem_cons_self)⟩
    | some s₁ =>
      rw [hr] at hp
      obtain ⟨s', hs', hps⟩ | ⟨hnone, hne⟩ := ih (hp.triangular hs)
      · exact .inl ⟨s', hs', .cons hp hps⟩
      · refine .inr ⟨hnone, fun θ hθ hall => ?_⟩
        rw [List.forall_mem_cons] at hall
        exact hne θ ((hp.satisfies_iff hs).2 ⟨hθ, hall.1⟩) hall.2

end Bindings

end Multiequation.Relational
