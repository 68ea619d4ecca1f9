import Multiequation.Multiterm

/-!
# Merging multiterms

Two multiterms merge when their functors and arities agree; their cells are then merged in order, the
variables of the left cell in front of those of the right one. The first disagreement found, parents
before children and left before right, is the clash.
-/

namespace Multiequation

mutual

/-- The multiterm that claims what both multiterms claim. -/
def Multiterm.merge : Multiterm → Multiterm → Except Clash Multiterm
  | ⟨f, ls⟩, ⟨g, rs⟩ =>
    if f ≠ g then
      .error (if ls.isEmpty && rs.isEmpty then .symbols f g else .functors f g)
    else if ls.length ≠ rs.length then .error (.arities f ls.length rs.length)
    else do return ⟨f, ← Cell.mergeArgs ls rs⟩
termination_by structural l => l

/-- Merges what is present; one multiterm alone is left as it is. -/
def Multiterm.mergeOption : Option Multiterm → Option Multiterm → Except Clash (Option Multiterm)
  | none, r => .ok r
  | some l, none => .ok (some l)
  | some l, some r => do return some (← Multiterm.merge l r)
termination_by structural l => l

/-- Merges the cells of two argument lists of one length. -/
def Cell.mergeArgs : List Cell → List Cell → Except Clash (List Cell)
  | ⟨vs, l⟩ :: ls, ⟨ws, r⟩ :: rs => do
    let term ← Multiterm.mergeOption l r
    let rest ← Cell.mergeArgs ls rs
    return ⟨vs ++ ws, term⟩ :: rest
  | _, _ => .ok []
termination_by structural l => l

end

@[simp] theorem Multiterm.mergeOption_none_left (r : Option Multiterm) :
    Multiterm.mergeOption none r = .ok r := rfl

@[simp] theorem Multiterm.mergeOption_none_right (l : Option Multiterm) :
    Multiterm.mergeOption l none = .ok l := by
  cases l <;> rfl

@[simp] theorem Multiterm.mergeOption_some_some (l r : Multiterm) :
    Multiterm.mergeOption (some l) (some r) = (l.merge r).map some := by
  simp only [Multiterm.mergeOption]
  cases l.merge r <;> rfl

@[simp] theorem Cell.mergeArgs_nil : Cell.mergeArgs [] [] = .ok [] := rfl

theorem Cell.mergeArgs_cons (l r : Cell) (ls rs : List Cell) :
    Cell.mergeArgs (l :: ls) (r :: rs) =
      (Multiterm.mergeOption l.term r.term).bind fun term =>
        (Cell.mergeArgs ls rs).map (⟨l.vars ++ r.vars, term⟩ :: ·) := by
  cases l; cases r
  simp only [Cell.mergeArgs]
  cases Multiterm.mergeOption _ _ with
  | error c => rfl
  | ok term =>
    cases Cell.mergeArgs ls rs <;> rfl

/-- Multiterms of one functor and one arity merge cell by cell. -/
theorem Multiterm.merge_of_eq (f : Symbol) {ls rs : List Cell} (h : ls.length = rs.length) :
    Multiterm.merge ⟨f, ls⟩ ⟨f, rs⟩ = (Cell.mergeArgs ls rs).map (⟨f, ·⟩) := by
  simp only [Multiterm.merge, h]
  cases Cell.mergeArgs ls rs <;> simp [bind, Except.bind, pure, Except.pure, Except.map]

end Multiequation
