import Multiequation.Multiterm.Frontier
import Multiequation.Multiterm.Merge
import Mathlib.Tactic

/-!
# Induction over multiterms, merges and peelings

A multiterm is reached from the multiterms in its cells. A successful merge relates three multiterms
cell by cell, and a successful peeling relates a multiterm, what is kept of it and the cells that
move out. Each comes with one induction principle, and facts about merging and peeling are proved by
these and not by unfolding the functions again.
-/

namespace Except

variable {ε α β : Type}

theorem map_eq_ok_iff {f : α → β} {x : Except ε α} {b : β} :
    x.map f = .ok b ↔ ∃ a, x = .ok a ∧ f a = b := by
  cases x <;> simp [Except.map]

theorem map_eq_error_iff {f : α → β} {x : Except ε α} {e : ε} :
    x.map f = .error e ↔ x = .error e := by
  cases x <;> simp [Except.map]

theorem bind_eq_ok_iff {f : α → Except ε β} {x : Except ε α} {b : β} :
    x.bind f = .ok b ↔ ∃ a, x = .ok a ∧ f a = .ok b := by
  cases x <;> simp [Except.bind]

theorem bind_eq_error_iff {f : α → Except ε β} {x : Except ε α} {e : ε} :
    x.bind f = .error e ↔ x = .error e ∨ ∃ a, x = .ok a ∧ f a = .error e := by
  cases x <;> simp [Except.bind]

end Except

namespace Multiequation

/-- Induction over multiterms with the hypothesis for the multiterm of every argument cell. -/
@[elab_as_elim]
theorem Multiterm.induction {P : Multiterm → Prop}
    (mk : ∀ f args, (∀ c ∈ args, ∀ t, c.term = some t → P t) → P ⟨f, args⟩) (t : Multiterm) :
    P t := by
  refine @Multiterm.rec (fun c => ∀ t, c.term = some t → P t) P (fun o => ∀ t, o = some t → P t)
    (fun cs => ∀ c ∈ cs, ∀ t, c.term = some t → P t) ?_ mk ?_ ?_ ?_ ?_ t
  · intro vs o ho
    exact ho
  · intro t ht
    cases ht
  · rintro s hs t ⟨⟩
    exact hs
  · intro c hc
    cases hc
  · intro c cs hc hcs e he
    rcases List.mem_cons.1 he with rfl | he
    · exact hc
    · exact hcs e he

/-! ### Merging -/

/-- How two cells of one argument place become one. -/
inductive Cell.Joined (P : Multiterm → Multiterm → Multiterm → Prop) : Cell → Cell → Cell → Prop
  | left (vs ws : Queue Var) (t : Option Multiterm) : Joined P ⟨vs, t⟩ ⟨ws, none⟩ ⟨vs ++ ws, t⟩
  | right (vs ws : Queue Var) (t : Option Multiterm) : Joined P ⟨vs, none⟩ ⟨ws, t⟩ ⟨vs ++ ws, t⟩
  | both (vs ws : Queue Var) {s t u : Multiterm} :
      P s t u → Joined P ⟨vs, some s⟩ ⟨ws, some t⟩ ⟨vs ++ ws, some u⟩

/-- How the cells of two argument lists become those of one. -/
inductive Cell.AllJoined (P : Multiterm → Multiterm → Multiterm → Prop) :
    List Cell → List Cell → List Cell → Prop
  | nil : AllJoined P [] [] []
  | cons {l r m : Cell} {ls rs ms : List Cell} :
      Joined P l r m → AllJoined P ls rs ms → AllJoined P (l :: ls) (r :: rs) (m :: ms)

theorem Cell.mergeArgs_cons_eq_ok {l r : Cell} {ls rs ms : List Cell}
    (h : Cell.mergeArgs (l :: ls) (r :: rs) = .ok ms) :
    ∃ t ts, Multiterm.mergeOption l.term r.term = .ok t ∧ Cell.mergeArgs ls rs = .ok ts ∧
      ms = ⟨l.vars ++ r.vars, t⟩ :: ts := by
  rw [Cell.mergeArgs_cons] at h
  obtain ⟨t, ht, h⟩ := Except.bind_eq_ok_iff.1 h
  obtain ⟨ts, hts, rfl⟩ := Except.map_eq_ok_iff.1 h
  exact ⟨t, ts, ht, hts, rfl⟩

theorem Cell.mergeArgs_cons_eq_error {l r : Cell} {ls rs : List Cell} {e : Clash}
    (h : Cell.mergeArgs (l :: ls) (r :: rs) = .error e) :
    Multiterm.mergeOption l.term r.term = .error e ∨
      ∃ t, Multiterm.mergeOption l.term r.term = .ok t ∧ Cell.mergeArgs ls rs = .error e := by
  rw [Cell.mergeArgs_cons] at h
  obtain ht | ⟨t, ht, h⟩ := Except.bind_eq_error_iff.1 h
  · exact .inl ht
  · exact .inr ⟨t, ht, Except.map_eq_error_iff.1 h⟩

/-- The cells of two argument lists are merged up to the first place at which this fails. -/
theorem Cell.mergeArgs_eq_error {ls rs : List Cell} {e : Clash}
    (h : Cell.mergeArgs ls rs = .error e) :
    ∃ (i : ℕ) (c d : Cell), ls[i]? = some c ∧ rs[i]? = some d ∧
      Multiterm.mergeOption c.term d.term = .error e ∧
      ∀ j < i, ∀ c' d' : Cell, ls[j]? = some c' → rs[j]? = some d' →
        ∃ t, Multiterm.mergeOption c'.term d'.term = .ok t := by
  induction ls generalizing rs with
  | nil => simp [Cell.mergeArgs] at h
  | cons l ls ih =>
    cases rs with
    | nil => simp [Cell.mergeArgs] at h
    | cons r rs =>
      obtain hcell | ⟨t, ht, hrest⟩ := Cell.mergeArgs_cons_eq_error h
      · exact ⟨0, l, r, rfl, rfl, hcell, fun j hj => absurd hj (Nat.not_lt_zero j)⟩
      · obtain ⟨i, c, d, hc, hd, he, hbefore⟩ := ih hrest
        refine ⟨i + 1, c, d, hc, hd, he, fun j hj c' d' hc' hd' => ?_⟩
        cases j with
        | zero =>
          cases hc'
          cases hd'
          exact ⟨t, ht⟩
        | succ j => exact hbefore j (Nat.lt_of_succ_lt_succ hj) c' d' hc' hd'

theorem Multiterm.merge_eq_ok {f g : Symbol} {ls rs : List Cell} {m : Multiterm}
    (h : Multiterm.merge ⟨f, ls⟩ ⟨g, rs⟩ = .ok m) :
    f = g ∧ ls.length = rs.length ∧ ∃ ms, Cell.mergeArgs ls rs = .ok ms ∧ m = ⟨f, ms⟩ := by
  by_cases hf : f = g
  · by_cases hlen : ls.length = rs.length
    · subst hf
      rw [Multiterm.merge_of_eq f hlen] at h
      obtain ⟨ms, hms, rfl⟩ := Except.map_eq_ok_iff.1 h
      exact ⟨rfl, hlen, ms, hms, rfl⟩
    · simp [Multiterm.merge, hf, hlen] at h
  · simp [Multiterm.merge, hf] at h

/-- How two applications clash that have the given functors and arities. -/
inductive Clash.Between : Symbol × ℕ → Symbol × ℕ → Clash → Prop
  | symbols {f g : Symbol} : f ≠ g → Between (f, 0) (g, 0) (.symbols f g)
  | functors {f g : Symbol} {m n : ℕ} : f ≠ g → (m ≠ 0 ∨ n ≠ 0) →
      Between (f, m) (g, n) (.functors f g)
  | arities {f : Symbol} {m n : ℕ} : m ≠ n → Between (f, m) (f, n) (.arities f m n)

theorem Clash.Between.differ {f g : Symbol} {m n : ℕ} {e : Clash}
    (h : Between (f, m) (g, n) e) : f ≠ g ∨ m ≠ n := by
  cases h with
  | symbols hf => exact .inl hf
  | functors hf _ => exact .inl hf
  | arities hmn => exact .inr hmn

theorem Multiterm.merge_eq_error {f g : Symbol} {ls rs : List Cell} {e : Clash}
    (h : Multiterm.merge ⟨f, ls⟩ ⟨g, rs⟩ = .error e) :
    Clash.Between (f, ls.length) (g, rs.length) e ∨
      f = g ∧ ls.length = rs.length ∧ Cell.mergeArgs ls rs = .error e := by
  by_cases hf : f = g
  · subst hf
    by_cases hlen : ls.length = rs.length
    · rw [Multiterm.merge_of_eq f hlen] at h
      exact .inr ⟨rfl, hlen, Except.map_eq_error_iff.1 h⟩
    · simp only [Multiterm.merge, ne_eq, hlen, not_true_eq_false, not_false_eq_true, if_false,
        if_true, Except.error.injEq] at h
      subst h
      exact .inl (.arities hlen)
  · simp only [Multiterm.merge, ne_eq, hf, not_false_eq_true, if_true, Except.error.injEq] at h
    subst h
    split_ifs with hleaves
    · simp only [Bool.and_eq_true, List.isEmpty_iff] at hleaves
      obtain ⟨rfl, rfl⟩ := hleaves
      exact .inl (.symbols hf)
    · refine .inl (.functors hf ?_)
      simpa [← imp_iff_not_or] using hleaves

/-- A merge of optional multiterms takes the one that is there, or merges both. -/
theorem Multiterm.mergeOption_eq_ok {l r m : Option Multiterm}
    (h : Multiterm.mergeOption l r = .ok m) :
    (l = none ∧ m = r) ∨ (r = none ∧ m = l) ∨
      ∃ s t u, l = some s ∧ r = some t ∧ m = some u ∧ s.merge t = .ok u := by
  cases l with
  | none => exact .inl ⟨rfl, (Except.ok.inj h).symm⟩
  | some s =>
    cases r with
    | none => exact .inr (.inl ⟨rfl, (Except.ok.inj h).symm⟩)
    | some t =>
      rw [Multiterm.mergeOption_some_some] at h
      obtain ⟨u, hu, rfl⟩ := Except.map_eq_ok_iff.1 h
      exact .inr (.inr ⟨s, t, u, rfl, rfl, rfl, hu⟩)

theorem Multiterm.mergeOption_eq_error {l r : Option Multiterm} {e : Clash}
    (h : Multiterm.mergeOption l r = .error e) :
    ∃ s t, l = some s ∧ r = some t ∧ s.merge t = .error e := by
  cases l with
  | none => cases h
  | some s =>
    cases r with
    | none => cases h
    | some t =>
      rw [Multiterm.mergeOption_some_some] at h
      exact ⟨s, t, rfl, rfl, Except.map_eq_error_iff.1 h⟩

/-- Induction over a successful merge. -/
theorem Multiterm.merge_induction {P : Multiterm → Multiterm → Multiterm → Prop}
    (mk : ∀ f ls rs ms, Cell.AllJoined P ls rs ms → P ⟨f, ls⟩ ⟨f, rs⟩ ⟨f, ms⟩) {l r m : Multiterm}
    (h : l.merge r = .ok m) : P l r m := by
  induction l using Multiterm.induction generalizing r m with
  | mk f ls ih =>
    obtain ⟨g, rs⟩ := r
    obtain ⟨rfl, hlen, ms, hms, rfl⟩ := Multiterm.merge_eq_ok h
    refine mk f ls rs ms ?_
    clear h
    induction ls generalizing rs ms with
    | nil =>
      obtain rfl : rs = [] := List.length_eq_zero_iff.1 hlen.symm
      cases hms
      exact .nil
    | cons l ls ihls =>
      obtain ⟨r, rs, rfl⟩ := List.exists_cons_of_length_eq_add_one hlen.symm
      obtain ⟨t, ts, ht, hts, rfl⟩ := Cell.mergeArgs_cons_eq_ok hms
      refine .cons ?_ (ihls (fun c hc => ih c (List.mem_cons_of_mem l hc)) rs
        (by simpa using hlen) ts hts)
      obtain ⟨vs, s⟩ := l
      obtain ⟨ws, s'⟩ := r
      obtain ⟨rfl, rfl⟩ | ⟨rfl, rfl⟩ | ⟨s, s', u, rfl, rfl, rfl, hu⟩ :=
        Multiterm.mergeOption_eq_ok ht
      · exact .right vs ws _
      · exact .left vs ws _
      · exact .both vs ws (ih ⟨vs, some s⟩ List.mem_cons_self s rfl hu)

/-! ### Peeling -/

/-- How the cells of an argument list are peeled: a cell with variables moves out, the multiterm of
any other cell is peeled in its place. -/
inductive Cell.AllPeeled (P : Multiterm → Multiterm → List Cell → Prop) :
    List Cell → List Cell → List Cell → Prop
  | nil : AllPeeled P [] [] []
  | move {c : Cell} {v : Var} {cells kept frontier : List Cell} :
      c.vars.front? = some v → AllPeeled P cells kept frontier →
      AllPeeled P (c :: cells) (.var v :: kept) (c :: frontier)
  | stay {s t : Multiterm} {moved cells kept frontier : List Cell} :
      P s t moved → AllPeeled P cells kept frontier →
      AllPeeled P (.nested s :: cells) (.nested t :: kept) (moved ++ frontier)

/-- At each argument place the cell has moved out, or its multiterm has been peeled, or there is no such
place. -/
theorem Cell.AllPeeled.getElem? {P : Multiterm → Multiterm → List Cell → Prop}
    {cells kept frontier : List Cell} (h : AllPeeled P cells kept frontier) (i : ℕ) :
    (cells[i]? = none ∧ kept[i]? = none) ∨
      (∃ c v, cells[i]? = some c ∧ c.vars.front? = some v ∧ kept[i]? = some (.var v)) ∨
      ∃ s t moved, cells[i]? = some (.nested s) ∧ kept[i]? = some (.nested t) ∧ P s t moved := by
  induction h generalizing i with
  | nil => exact .inl ⟨rfl, rfl⟩
  | move hv _ ih =>
    cases i with
    | zero => exact .inr (.inl ⟨_, _, rfl, hv, rfl⟩)
    | succ i => exact ih i
  | stay hs _ ih =>
    cases i with
    | zero => exact .inr (.inr ⟨_, _, _, rfl, rfl, hs⟩)
    | succ i => exact ih i

theorem Cell.AllPeeled.length_eq {P : Multiterm → Multiterm → List Cell → Prop}
    {cells kept frontier : List Cell} (h : AllPeeled P cells kept frontier) :
    kept.length = cells.length := by
  induction h with
  | nil => rfl
  | move _ _ ih => exact congrArg Nat.succ ih
  | stay _ _ ih => exact congrArg Nat.succ ih

/-- A cell with neither variables nor a multiterm can not be peeled, any other one is a variable cell
or holds a multiterm alone. -/
theorem Cell.eq_nested_of_front {c : Cell} {t : Multiterm} (hv : c.vars.front? = none)
    (ht : c.term = some t) : c = .nested t := by
  obtain ⟨⟨vs⟩, o⟩ := c
  cases ht
  cases vs with
  | nil => rfl
  | cons v vs => cases hv

theorem Cell.peelArgs_nested_cons (s : Multiterm) (cells : List Cell) :
    Cell.peelArgs (.nested s :: cells) =
      match s.peel.frontier with
      | .error e => ⟨.nested s.peel.kept :: cells, .error e⟩
      | .ok moved => ⟨.nested s.peel.kept :: (Cell.peelArgs cells).kept,
          (Cell.peelArgs cells).frontier.map (moved ++ ·)⟩ := rfl

theorem Cell.peelArgs_empty_cons {c : Cell} (hv : c.vars.front? = none) (ht : c.term = none)
    (cells : List Cell) : (Cell.peelArgs (c :: cells)).frontier = .error .emptyCell := by
  obtain ⟨vs, o⟩ := c
  cases ht
  simp only [Cell.peelArgs]
  rw [hv]
  rfl

/-- Induction over a successful peeling. -/
theorem Multiterm.peel_induction {P : Multiterm → Multiterm → List Cell → Prop}
    (mk : ∀ f args kept frontier, Cell.AllPeeled P args kept frontier →
      P ⟨f, args⟩ ⟨f, kept⟩ frontier)
    {t : Multiterm} {frontier : List Cell} (h : t.peel.frontier = .ok frontier) :
    P t t.peel.kept frontier := by
  induction t using Multiterm.induction generalizing frontier with
  | mk f args ih =>
    rw [Multiterm.peel_mk] at h ⊢
    refine mk f args _ _ ?_
    clear mk
    induction args generalizing frontier with
    | nil => cases h; exact .nil
    | cons c cells ihcells =>
      have ihcells := fun {fr} => @ihcells (fun d hd => ih d (List.mem_cons_of_mem c hd)) fr
      cases hv : c.vars.front? with
      | some v =>
        rw [Cell.peelArgs_cons_of_front hv] at h ⊢
        obtain ⟨rest, hrest, rfl⟩ := Except.map_eq_ok_iff.1 h
        exact .move hv (ihcells hrest)
      | none =>
        cases ht : c.term with
        | none => rw [Cell.peelArgs_empty_cons hv ht] at h; cases h
        | some s =>
          obtain rfl := Cell.eq_nested_of_front hv ht
          rw [Cell.peelArgs_nested_cons] at h ⊢
          cases hs : s.peel.frontier with
          | error e => rw [hs] at h; cases h
          | ok moved =>
            rw [hs] at h
            obtain ⟨rest, hrest, rfl⟩ := Except.map_eq_ok_iff.1 h
            exact .stay (ih _ List.mem_cons_self s rfl hs) (ihcells hrest)

end Multiequation
