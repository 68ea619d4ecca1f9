import Multiequation.Proofs.Multiterm.Paths
import Multiequation.Proofs.Multiterm.Shape

/-!
# What peeling moves and what it keeps

The topmost cells of a multiterm are the cells with variables that are reached through cells without
any. Peeling moves exactly these to the frontier, in the order of their paths and with all they hold,
and leaves the first variable of each as a placeholder; nothing else changes. So the frontier can be
put back into the placeholders, and what has been peeled is only repeated when it is peeled again.
-/

namespace Multiequation

/-! ### Putting cells back -/

mutual

/-- Puts cells in the places of the topmost cells with variables, from left to right. The second result
is what is left over of the cells. -/
def Multiterm.refill : Multiterm → List Cell → Multiterm × List Cell
  | ⟨f, args⟩, cells =>
    let refilled := Cell.refillArgs args cells
    (⟨f, refilled.1⟩, refilled.2)
termination_by structural t => t

/-- Puts cells in the places of the topmost cells with variables, if there is a multiterm. -/
def Multiterm.refillOption : Option Multiterm → List Cell → Option Multiterm × List Cell
  | none, cells => (none, cells)
  | some t, cells =>
    let refilled := t.refill cells
    (some refilled.1, refilled.2)
termination_by structural t => t

/-- Puts cells in the places of the topmost cells with variables of an argument list. -/
def Cell.refillArgs : List Cell → List Cell → List Cell × List Cell
  | [], cells => ([], cells)
  | ⟨vs, t⟩ :: args, cells =>
    match vs.front?, cells with
    | some _, [] => (⟨vs, t⟩ :: args, [])
    | some _, c :: cells =>
      let rest := Cell.refillArgs args cells
      (c :: rest.1, rest.2)
    | none, cells =>
      let refilled := Multiterm.refillOption t cells
      let rest := Cell.refillArgs args refilled.2
      (⟨vs, refilled.1⟩ :: rest.1, rest.2)
termination_by structural args => args

end

namespace Cell

theorem refillArgs_var_cons (v : Var) (args : List Cell) (c : Cell) (cells : List Cell) :
    refillArgs (.var v :: args) (c :: cells) =
      (c :: (refillArgs args cells).1, (refillArgs args cells).2) := rfl

theorem refillArgs_nested_cons (t : Multiterm) (args cells : List Cell) :
    refillArgs (.nested t :: args) cells =
      (.nested (t.refill cells).1 :: (refillArgs args (t.refill cells).2).1,
        (refillArgs args (t.refill cells).2).2) := rfl

/-! ### Topmost cells -/

/-- The path leads to a cell with variables, and no cell above that cell has any. -/
def IsTopmost (c : Cell) (path : List ℕ) (d : Cell) : Prop :=
  c.Reaches path d ∧ d.vars.toList ≠ []

/-- The list consists of the places with `p`, in the order of their paths. -/
structure Lists (p : List ℕ → Cell → Prop) (places : List (List ℕ × Cell)) : Prop where
  ordered : places.Pairwise fun a b => a.1 < b.1
  mem : ∀ path c, (path, c) ∈ places ↔ p path c

namespace Lists

variable {p q r : List ℕ → Cell → Prop} {ps qs : List (List ℕ × Cell)}

theorem congr (h : Lists p ps) (hpq : ∀ path c, p path c ↔ q path c) : Lists q ps :=
  ⟨h.ordered, fun path c => (h.mem path c).trans (hpq path c)⟩

theorem append (hp : Lists p ps) (hq : Lists q qs)
    (hlt : ∀ path c path' c', p path c → q path' c' → path < path') :
    Lists (fun path c => p path c ∨ q path c) (ps ++ qs) := by
  refine ⟨List.pairwise_append.2 ⟨hp.ordered, hq.ordered, ?_⟩, fun path c => ?_⟩
  · rintro ⟨path, c⟩ hc ⟨path', c'⟩ hc'
    exact hlt path c path' c' ((hp.mem path c).1 hc) ((hq.mem path' c').1 hc')
  · rw [List.mem_append, hp.mem, hq.mem]

/-- The places of an argument, told from above. -/
theorem argument (hp : Lists p ps) (i : ℕ) :
    Lists (fun path c => ∃ rest, path = i :: rest ∧ p rest c)
      (ps.map fun a => (i :: a.1, a.2)) := by
  refine ⟨hp.ordered.map _ fun a b hab => List.cons_lt_cons_iff.2 (.inr ⟨rfl, hab⟩), ?_⟩
  intro path c
  simp only [List.mem_map, Prod.exists, Prod.mk.injEq]
  constructor
  · rintro ⟨rest, d, hd, rfl, rfl⟩
    exact ⟨rest, rfl, (hp.mem rest d).1 hd⟩
  · rintro ⟨rest, rfl, hc⟩
    exact ⟨rest, c, (hp.mem rest c).2 hc, rfl, rfl⟩

end Lists

theorem isTopmost_iff_of_vars {c d : Cell} {path : List ℕ} (h : c.vars.toList ≠ []) :
    c.IsTopmost path d ↔ path = [] ∧ d = c := by
  rw [IsTopmost, reaches_iff_of_vars h]
  constructor
  · exact And.left
  · rintro ⟨rfl, rfl⟩
    exact ⟨⟨rfl, rfl⟩, h⟩

/-- The topmost cells of the cells of an argument list whose first place is `n`. -/
def AreTopmost (n : ℕ) (cells : List Cell) (path : List ℕ) (d : Cell) : Prop :=
  ∃ (i : ℕ) (c : Cell) (rest : List ℕ), cells[i]? = some c ∧ path = (n + i) :: rest ∧
    c.IsTopmost rest d

theorem areTopmost_cons {n : ℕ} {c d : Cell} {cells : List Cell} {path : List ℕ} :
    AreTopmost n (c :: cells) path d ↔
      (∃ rest, path = n :: rest ∧ c.IsTopmost rest d) ∨ AreTopmost (n + 1) cells path d := by
  constructor
  · rintro ⟨_ | i, e, rest, hi, rfl, he⟩
    · cases hi
      exact .inl ⟨rest, rfl, he⟩
    · exact .inr ⟨i, e, rest, hi, by rw [Nat.add_right_comm]; rfl, he⟩
  · rintro (⟨rest, rfl, hc⟩ | ⟨i, e, rest, hi, rfl, he⟩)
    · exact ⟨0, c, rest, rfl, rfl, hc⟩
    · exact ⟨i + 1, e, rest, hi, by rw [Nat.add_right_comm]; rfl, he⟩

theorem isTopmost_nested {f : Symbol} {args : List Cell} {path : List ℕ} {d : Cell} :
    (nested ⟨f, args⟩).IsTopmost path d ↔ AreTopmost 0 args path d := by
  constructor
  · rintro ⟨hd, hvars⟩
    cases hd with
    | here => exact absurd rfl hvars
    | @arg _ _ i c _ rest hi hc => exact ⟨i, c, rest, hi, by rw [Nat.zero_add], hc, hvars⟩
  · rintro ⟨i, c, rest, hi, rfl, hc, hvars⟩
    rw [Nat.zero_add]
    exact ⟨.arg hi hc, hvars⟩

/-- The places of the first argument come before those of the others. -/
theorem Lists.cons {n : ℕ} {c : Cell} {cells : List Cell} {ps qs : List (List ℕ × Cell)}
    (hp : Lists c.IsTopmost ps) (hq : Lists (AreTopmost (n + 1) cells) qs) :
    Lists (AreTopmost n (c :: cells)) (ps.map (fun a => (n :: a.1, a.2)) ++ qs) := by
  refine ((hp.argument n).append hq ?_).congr fun path d => areTopmost_cons.symm
  rintro _ c _ c' ⟨rest, rfl, -⟩ ⟨i, e, rest', -, rfl, -⟩
  exact List.cons_lt_cons_iff.2 (.inl (by omega))

end Cell

namespace Multiterm

open Cell

variable {t : Multiterm} {frontier : List Cell}

/-- The frontier consists of the topmost cells in the order of their paths. -/
theorem exists_lists_frontier (h : t.peel.frontier = .ok frontier) :
    ∃ places, Lists (nested t).IsTopmost places ∧ frontier = places.map Prod.snd := by
  refine peel_induction (P := fun t _ cells =>
    ∃ places, Lists (nested t).IsTopmost places ∧ cells = places.map Prod.snd) ?_ h
  intro f args kept cells hp
  -- the induction goes along the arguments, so it is about those from the `n`-th place on
  suffices hargs : ∀ n, ∃ places, Lists (AreTopmost n args) places ∧ cells = places.map Prod.snd by
    obtain ⟨places, hplaces, hcells⟩ := hargs 0
    exact ⟨places, hplaces.congr fun _ _ => isTopmost_nested.symm, hcells⟩
  induction hp with
  | nil =>
    refine fun n => ⟨[], ⟨.nil, fun path c => ?_⟩, rfl⟩
    exact iff_of_false (by simp) fun ⟨i, e, rest, hi, _⟩ => by simp at hi
  | @move c v cells kept frontier hv _ ih =>
    intro n
    obtain ⟨places, hplaces, rfl⟩ := ih (n + 1)
    have hvars := List.ne_nil_of_mem (List.mem_of_head? hv)
    have hself : Lists c.IsTopmost [([], c)] := by
      refine ⟨List.pairwise_singleton _ _, fun path d => ?_⟩
      rw [isTopmost_iff_of_vars hvars, List.mem_singleton, Prod.mk.injEq]
    exact ⟨_, hself.cons hplaces, rfl⟩
  | stay hs _ ih =>
    intro n
    obtain ⟨places, hplaces, rfl⟩ := ih (n + 1)
    obtain ⟨moved, hmoved, rfl⟩ := hs
    exact ⟨_, hmoved.cons hplaces, by simp⟩

/-- The cells above the topmost ones keep their functors and places. -/
theorem exists_at?_kept (h : t.peel.frontier = .ok frontier) {path : List ℕ} {c : Cell}
    (hc : (nested t).Reaches path c) (hvars : c.vars.toList = []) :
    ∃ d, (nested t.peel.kept).at? path = some d ∧ d.vars.toList = [] ∧ d.head? = c.head? := by
  revert path c
  refine peel_induction (P := fun t kept _ => ∀ {path c}, (nested t).Reaches path c →
    c.vars.toList = [] →
      ∃ d, (nested kept).at? path = some d ∧ d.vars.toList = [] ∧ d.head? = c.head?) ?_ h
  intro f args kept cells hp path c hc hvars
  cases hc with
  | here => exact ⟨_, rfl, rfl, by simp [nested, head?, arity, hp.length_eq]⟩
  | @arg _ _ i a _ rest hi hc =>
    obtain ⟨hnone, -⟩ | ⟨d, v, hd, hv, -⟩ | ⟨s, u, moved, hs, hu, ih⟩ := hp.getElem? i
    · cases hi.symm.trans hnone
    · cases hi.symm.trans hd
      obtain ⟨-, rfl⟩ := (reaches_iff_of_vars (List.ne_nil_of_mem (List.mem_of_head? hv))).1 hc
      rw [Queue.front?, hvars] at hv
      cases hv
    · cases hi.symm.trans hs
      obtain ⟨d, hd, hrest⟩ := ih hc hvars
      exact ⟨d, by simpa [nested, at?, hu] using hd, hrest⟩

/-- A topmost cell leaves its first variable alone. -/
theorem at?_kept_of_front (h : t.peel.frontier = .ok frontier) {path : List ℕ} {c : Cell} {v : Var}
    (hc : (nested t).Reaches path c) (hv : c.vars.front? = some v) :
    (nested t.peel.kept).at? path = some (.var v) := by
  revert path c v
  refine peel_induction (P := fun t kept _ => ∀ {path c v}, (nested t).Reaches path c →
    c.vars.front? = some v → (nested kept).at? path = some (.var v)) ?_ h
  intro f args kept cells hp path c v hc hv
  cases hc with
  | here => cases hv
  | @arg _ _ i a _ rest hi hc =>
    obtain ⟨hnone, -⟩ | ⟨d, w, hd, hw, hkept⟩ | ⟨s, u, moved, hs, hu, ih⟩ := hp.getElem? i
    · cases hi.symm.trans hnone
    · cases hi.symm.trans hd
      obtain ⟨rfl, rfl⟩ := (reaches_iff_of_vars (List.ne_nil_of_mem (List.mem_of_head? hw))).1 hc
      cases hv.symm.trans hw
      simp [nested, at?, hkept]
    · cases hi.symm.trans hs
      simpa [nested, at?, hu] using ih hc hv

/-- What is kept has no other places than those that are reached through cells without variables. -/
theorem exists_reaches_of_at?_kept (h : t.peel.frontier = .ok frontier) {path : List ℕ} {d : Cell}
    (hd : (nested t.peel.kept).at? path = some d) : ∃ c, (nested t).Reaches path c := by
  revert path d
  refine peel_induction (P := fun t kept _ => ∀ {path d}, (nested kept).at? path = some d →
    ∃ c, (nested t).Reaches path c) ?_ h
  intro f args kept cells hp path d hd
  cases path with
  | nil => exact ⟨_, .here _⟩
  | cons i rest =>
    obtain ⟨-, hnone⟩ | ⟨c, v, hc, hv, hkept⟩ | ⟨s, u, moved, hs, hu, ih⟩ := hp.getElem? i
    · simp [nested, at?, hnone] at hd
    · cases rest with
      | nil => exact ⟨c, .arg hc (.here c)⟩
      | cons j rest => simp [nested, at?, hkept, var] at hd
    · obtain ⟨c, hc⟩ := ih (by simpa [nested, at?, hu] using hd)
      exact ⟨c, .arg hs hc⟩

/-- The frontier fills the placeholders again, and further cells are left over. -/
theorem refill_kept (h : t.peel.frontier = .ok frontier) (rest : List Cell) :
    t.peel.kept.refill (frontier ++ rest) = (t, rest) := by
  revert rest
  refine peel_induction (P := fun t kept cells => ∀ rest, kept.refill (cells ++ rest) = (t, rest))
    ?_ h
  intro f args kept cells hp
  suffices hargs : ∀ rest, refillArgs kept (cells ++ rest) = (args, rest) by
    intro rest
    rw [refill, hargs]
  induction hp with
  | nil => exact fun rest => rfl
  | move hv _ ih =>
    intro rest
    rw [List.cons_append, refillArgs_var_cons, ih]
  | stay hs _ ih =>
    intro rest
    rw [List.append_assoc, refillArgs_nested_cons, hs, ih]

/-- Peeling what is kept moves the placeholders out and leaves them. -/
theorem peel_kept (h : t.peel.frontier = .ok frontier) :
    ∃ vs : List Var, t.peel.kept.peel = ⟨t.peel.kept, .ok (vs.map .var)⟩ ∧
      List.Forall₂ (fun (c : Cell) v => c.vars.front? = some v) frontier vs := by
  refine peel_induction (P := fun _ kept cells => ∃ vs : List Var,
    kept.peel = ⟨kept, .ok (vs.map .var)⟩ ∧
      List.Forall₂ (fun (c : Cell) v => c.vars.front? = some v) cells vs) ?_ h
  intro f args kept cells hp
  suffices hargs : ∃ vs : List Var, peelArgs kept = ⟨kept, .ok (vs.map .var)⟩ ∧
      List.Forall₂ (fun (c : Cell) v => c.vars.front? = some v) cells vs by
    obtain ⟨vs, hvs, hfronts⟩ := hargs
    exact ⟨vs, by rw [peel_mk, hvs], hfronts⟩
  induction hp with
  | nil => exact ⟨[], rfl, .nil⟩
  | @move c v cells kept frontier hv _ ih =>
    obtain ⟨vs, hvs, hfronts⟩ := ih
    refine ⟨v :: vs, ?_, .cons hv hfronts⟩
    rw [peelArgs_cons_of_front (c := var v) (v := v) rfl, hvs]
    rfl
  | stay hs _ ih =>
    obtain ⟨vs, hvs, hfronts⟩ := ih
    obtain ⟨us, hus, hmoved⟩ := hs
    refine ⟨us ++ vs, ?_, List.rel_append hmoved hfronts⟩
    rw [peelArgs_nested_cons, hus, hvs, List.map_append]
    rfl

/-- What peeling a layer off `t` gives: `kept` stays behind, the cells of the frontier move out. -/
structure IsLayer (t kept : Multiterm) (frontier : List Cell) : Prop where
  topmost : ∃ places, Lists (nested t).IsTopmost places ∧ frontier = places.map Prod.snd
  vars : (varsOfArgs frontier).Perm t.vars
  above : ∀ path c, (nested t).Reaches path c → c.vars.toList = [] →
    ∃ d, (nested kept).at? path = some d ∧ d.vars.toList = [] ∧ d.head? = c.head?
  placeholder : ∀ path c v, (nested t).Reaches path c → c.vars.front? = some v →
    (nested kept).at? path = some (.var v)
  reached : ∀ path d, (nested kept).at? path = some d → ∃ c, (nested t).Reaches path c
  restored : kept.refill frontier = (t, [])
  repeated : ∃ vs : List Var, kept.peel = ⟨kept, .ok (vs.map .var)⟩ ∧
    List.Forall₂ (fun (c : Cell) v => c.vars.front? = some v) frontier vs

/-- A layer can be peeled off exactly when every cell that is reached through cells without variables
holds a variable or a multiterm, and then it is a layer indeed. -/
theorem peel_exact (t : Multiterm) :
    ((∃ frontier, t.peel.frontier = .ok frontier) ↔
      ∀ path c, (nested t).Reaches path c → c.IsOccupied) ∧
    ∀ frontier, t.peel.frontier = .ok frontier → IsLayer t t.peel.kept frontier := by
  refine ⟨exists_frontier_iff, fun frontier h => ?_⟩
  exact {
    topmost := exists_lists_frontier h
    vars := .of_eq (vars_frontier h)
    above := fun _ _ => exists_at?_kept h
    placeholder := fun _ _ _ => at?_kept_of_front h
    reached := fun _ _ => exists_reaches_of_at?_kept h
    restored := by simpa using refill_kept h []
    repeated := peel_kept h }

/-- From `f(_0 = _1 = g(_2), h(_3))` the places of `_0` and `_3` are moved out, and what hangs below
the first of them goes with it. -/
theorem peel_exact_of_nested_places : ∃ (t kept : Multiterm) (frontier : List Cell),
    t.peel = ⟨kept, .ok frontier⟩ ∧ IsLayer t kept frontier ∧ kept.vars = [⟨0⟩, ⟨3⟩] ∧
    varsOfArgs frontier = [⟨0⟩, ⟨1⟩, ⟨2⟩, ⟨3⟩] := by
  let f : Symbol := ⟨"f", by decide⟩
  let g : Symbol := ⟨"g", by decide⟩
  let h : Symbol := ⟨"h", by decide⟩
  let c : Cell := ⟨⟨[⟨0⟩, ⟨1⟩]⟩, some ⟨g, [.var ⟨2⟩]⟩⟩
  let t : Multiterm := ⟨f, [c, .nested ⟨h, [.var ⟨3⟩]⟩]⟩
  have hlayer := (peel_exact t).2 [c, .var ⟨3⟩] rfl
  exact ⟨t, _, _, rfl, hlayer, rfl, rfl⟩

end Multiterm

end Multiequation
