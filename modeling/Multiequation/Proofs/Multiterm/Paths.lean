import Multiequation.Proofs.Multiterm.Recursion

/-!
# What stands at which place

A path of argument places leads from a cell to a cell below it. A cell is told by the functor and the
arity of the multiterm at each path and by the variables there. Merging keeps both: at each path the
merged cell has the application of one of the two cells and the variables of both, and the two cells
have no different applications there.
-/

namespace Multiequation

namespace Cell

/-- The cell that a path of argument places leads to. -/
def at? : Cell → List ℕ → Option Cell
  | c, [] => some c
  | c, i :: path => c.term.bind fun t => t.args[i]?.bind fun d => d.at? path

/-- The functor and the arity of the multiterm of a cell. -/
def head? (c : Cell) : Option (Symbol × ℕ) := c.term.map fun t => (t.functor, t.arity)

/-- The functor and the arity of the application at a path. -/
def headAt? (c : Cell) (path : List ℕ) : Option (Symbol × ℕ) := (c.at? path).bind head?

/-- The variables of the cell at a path. -/
def varsAt (c : Cell) (path : List ℕ) : List Var := (c.at? path).elim [] fun d => d.vars.toList

variable {vs ws : Queue Var} {f : Symbol} {args ls rs ms : List Cell} {t : Option Multiterm}
  {c d m : Cell} {i : ℕ} {path : List ℕ}

@[simp] theorem headAt?_nil (c : Cell) : c.headAt? [] = c.head? := rfl

@[simp] theorem varsAt_nil (c : Cell) : c.varsAt [] = c.vars.toList := rfl

@[simp] theorem headAt?_none_cons : headAt? ⟨vs, none⟩ (i :: path) = none := rfl

@[simp] theorem varsAt_none_cons : varsAt ⟨vs, none⟩ (i :: path) = [] := rfl

theorem headAt?_app_cons :
    headAt? ⟨vs, some ⟨f, args⟩⟩ (i :: path) = args[i]?.bind fun c => c.headAt? path := by
  rw [headAt?, at?]
  cases h : args[i]? <;> simp [h, headAt?]

theorem varsAt_app_cons :
    varsAt ⟨vs, some ⟨f, args⟩⟩ (i :: path) = args[i]?.elim [] fun c => c.varsAt path := by
  rw [varsAt, at?]
  cases h : args[i]? <;> simp [h, varsAt]

/-! ### Merging -/

/-- At a path the two cells have no different applications, and `m` has the application of either of
them and the variables of both. -/
structure MergedAt (c d m : Cell) (path : List ℕ) : Prop where
  head : m.headAt? path = (c.headAt? path).or (d.headAt? path)
  agree : ∀ h h', c.headAt? path = some h → d.headAt? path = some h' → h = h'
  vars : m.varsAt path = c.varsAt path ++ d.varsAt path

/-- At some path the two cells have different applications. -/
def Conflict (c d : Cell) : Prop :=
  ∃ path h h', c.headAt? path = some h ∧ d.headAt? path = some h' ∧ h ≠ h'

theorem mergedAt_none_left (vs ws : Queue Var) (t : Option Multiterm) (path : List ℕ) :
    MergedAt ⟨vs, none⟩ ⟨ws, t⟩ ⟨vs ++ ws, t⟩ path := by
  cases path with
  | nil => exact ⟨by simp [head?], by simp [head?], by simp⟩
  | cons i path => exact ⟨rfl, nofun, rfl⟩

theorem mergedAt_none_right (vs ws : Queue Var) (t : Option Multiterm) (path : List ℕ) :
    MergedAt ⟨vs, t⟩ ⟨ws, none⟩ ⟨vs ++ ws, t⟩ path := by
  cases path with
  | nil => exact ⟨by simp [head?], by simp [head?], by simp⟩
  | cons i path =>
    refine ⟨?_, nofun, ?_⟩
    · rw [headAt?_none_cons, Option.or_none]
      rfl
    · rw [varsAt_none_cons, List.append_nil]
      rfl

variable {P : Multiterm → Multiterm → Multiterm → Prop}

theorem AllJoined.length_eq (h : AllJoined P ls rs ms) :
    ls.length = ms.length ∧ rs.length = ms.length := by
  induction h with
  | nil => exact ⟨rfl, rfl⟩
  | cons _ _ ih => exact ⟨congrArg Nat.succ ih.1, congrArg Nat.succ ih.2⟩

/-- At each argument place the cells have been joined, or there is no such place. -/
theorem AllJoined.getElem? (h : AllJoined P ls rs ms) (i : ℕ) :
    (ls[i]? = none ∧ rs[i]? = none ∧ ms[i]? = none) ∨
      ∃ c d m, ls[i]? = some c ∧ rs[i]? = some d ∧ ms[i]? = some m ∧ Joined P c d m := by
  induction h generalizing i with
  | nil => exact .inl ⟨rfl, rfl, rfl⟩
  | cons hjoined _ ih =>
    cases i with
    | zero => exact .inr ⟨_, _, _, rfl, rfl, rfl, hjoined⟩
    | succ i => exact ih i

end Cell

namespace Multiterm

open Cell

/-- A merge keeps what stands at each path. -/
theorem mergedAt_merge {l r m : Multiterm} (h : l.merge r = .ok m) (vs ws : Queue Var)
    (path : List ℕ) : MergedAt ⟨vs, some l⟩ ⟨ws, some r⟩ ⟨vs ++ ws, some m⟩ path := by
  revert vs ws path
  refine merge_induction (P := fun l r m => ∀ vs ws path,
    MergedAt ⟨vs, some l⟩ ⟨ws, some r⟩ ⟨vs ++ ws, some m⟩ path) ?_ h
  intro f ls rs ms hall vs ws path
  obtain ⟨hls, hrs⟩ := hall.length_eq
  cases path with
  | nil => exact ⟨by simp [head?, arity, hls], by simp [head?, arity, hls, hrs], by simp⟩
  | cons i path =>
    obtain ⟨hl, hr, hm⟩ | ⟨c, d, m, hl, hr, hm, hjoined⟩ := hall.getElem? i
    · constructor <;> simp [headAt?_app_cons, varsAt_app_cons, hl, hr, hm]
    · have hcell : MergedAt c d m path := by
        cases hjoined with
        | left vs ws t => exact mergedAt_none_right vs ws t path
        | right vs ws t => exact mergedAt_none_left vs ws t path
        | both vs ws ih => exact ih vs ws path
      constructor
      · simpa [headAt?_app_cons, hl, hr, hm] using hcell.head
      · simpa [headAt?_app_cons, hl, hr, hm] using hcell.agree
      · simpa [varsAt_app_cons, hl, hr, hm] using hcell.vars

theorem mergedAt_mergeOption {l r m : Option Multiterm} (h : mergeOption l r = .ok m)
    (vs ws : Queue Var) (path : List ℕ) : MergedAt ⟨vs, l⟩ ⟨ws, r⟩ ⟨vs ++ ws, m⟩ path := by
  obtain ⟨rfl, rfl⟩ | ⟨rfl, rfl⟩ | ⟨s, t, u, rfl, rfl, rfl, hu⟩ := mergeOption_eq_ok h
  · exact mergedAt_none_left vs ws _ path
  · exact mergedAt_none_right vs ws _ path
  · exact mergedAt_merge hu vs ws path

end Multiterm

/-! ### Equality up to the order of variables -/

namespace Cell

/-- The cells are equal but for the order of the variables in the cells at each depth. -/
inductive Reordered : Cell → Cell → Prop
  | bare {vs ws : Queue Var} : vs.toList.Perm ws.toList → Reordered ⟨vs, none⟩ ⟨ws, none⟩
  | app {vs ws : Queue Var} (f : Symbol) {ls rs : List Cell} : vs.toList.Perm ws.toList →
      ls.length = rs.length →
      (∀ (i : ℕ) (c d : Cell), ls[i]? = some c → rs[i]? = some d → Reordered c d) →
      Reordered ⟨vs, some ⟨f, ls⟩⟩ ⟨ws, some ⟨f, rs⟩⟩

/-- Induction over two cells with the same applications at each path, the variables of which are related
by `R` at each path. -/
theorem paths_induction {R : List Var → List Var → Prop} {P : Cell → Cell → Prop}
    (bare : ∀ {vs ws : Queue Var}, R vs.toList ws.toList → P ⟨vs, none⟩ ⟨ws, none⟩)
    (app : ∀ {vs ws : Queue Var} (f : Symbol) {ls rs : List Cell}, R vs.toList ws.toList →
      ls.length = rs.length →
      (∀ (i : ℕ) (c d : Cell), ls[i]? = some c → rs[i]? = some d → P c d) →
      P ⟨vs, some ⟨f, ls⟩⟩ ⟨ws, some ⟨f, rs⟩⟩)
    {c d : Cell} (hhead : ∀ path, c.headAt? path = d.headAt? path)
    (hvars : ∀ path, R (c.varsAt path) (d.varsAt path)) : P c d := by
  obtain ⟨vs, s⟩ := c
  cases s with
  | none =>
    obtain ⟨ws, t⟩ := d
    cases t with
    | none => exact bare (hvars [])
    | some t => cases hhead []
  | some s =>
    induction s using Multiterm.induction generalizing vs d with
    | mk f ls ih =>
      obtain ⟨ws, _ | ⟨g, rs⟩⟩ := d
      · cases hhead []
      · have hroot : (f, ls.length) = (g, rs.length) := Option.some.inj (hhead [])
        obtain ⟨rfl, hlen⟩ := Prod.mk.inj hroot
        refine app f (hvars []) hlen fun i c d hc hd => ?_
        have hhead' : ∀ path, c.headAt? path = d.headAt? path := by
          intro path
          have := hhead (i :: path)
          rwa [headAt?_app_cons, headAt?_app_cons, hc, hd] at this
        have hvars' : ∀ path, R (c.varsAt path) (d.varsAt path) := by
          intro path
          have := hvars (i :: path)
          rwa [varsAt_app_cons, varsAt_app_cons, hc, hd] at this
        obtain ⟨vs', s⟩ := c
        cases s with
        | none =>
          obtain ⟨ws', t⟩ := d
          cases t with
          | none => exact bare (hvars' [])
          | some t => cases hhead' []
        | some s => exact ih _ (List.mem_of_getElem? hc) s rfl vs' hhead' hvars'

/-- Cells with the same applications and the same variables at each path are equal but for the order
of variables. -/
theorem reordered_of_paths {c d : Cell} (hhead : ∀ path, c.headAt? path = d.headAt? path)
    (hvars : ∀ path, (c.varsAt path).Perm (d.varsAt path)) : Reordered c d :=
  paths_induction (P := Reordered) .bare .app hhead hvars

/-- A cell is told by its applications and its variables, in their order, at each path. -/
theorem eq_of_paths {c d : Cell} (hhead : ∀ path, c.headAt? path = d.headAt? path)
    (hvars : ∀ path, c.varsAt path = d.varsAt path) : c = d := by
  refine paths_induction (R := Eq) (P := Eq) ?_ ?_ hhead hvars
  · intro vs ws hvs
    rw [Queue.ext_toList hvs]
  · intro vs ws f ls rs hvs hlen hargs
    rw [Queue.ext_toList hvs, List.ext_getElem hlen fun i hl hr => hargs i _ _
      (List.getElem?_eq_getElem hl) (List.getElem?_eq_getElem hr)]

end Cell

end Multiequation
