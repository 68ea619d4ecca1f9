import Multiequation.Multiterm

/-!
# Peeling a layer off a multiterm

Every topmost cell that holds variables moves to the frontier and leaves its first variable as a
placeholder. What stays behind is the part of the multiterm above those cells. A cell with neither
variables nor a multiterm stops the peeling; the cells before it have been peeled by then.
-/

namespace Multiequation

/-- What is left of a multiterm after peeling, and the cells that moved out, from left to right. -/
structure Peeled (τ : Type) where
  kept : τ
  frontier : Except Failure (List Cell)

mutual

/-- Peels one layer off a multiterm. -/
def Multiterm.peel : Multiterm → Peeled Multiterm
  | ⟨f, args⟩ =>
    let peeled := Cell.peelArgs args
    ⟨⟨f, peeled.kept⟩, peeled.frontier⟩
termination_by structural t => t

/-- Peels one layer off the multiterm of a cell without variables. -/
def Multiterm.peelOption : Option Multiterm → Peeled (Option Multiterm)
  | none => ⟨none, .error .emptyCell⟩
  | some t =>
    let peeled := t.peel
    ⟨some peeled.kept, peeled.frontier⟩
termination_by structural t => t

/-- Peels the cells of an argument list from left to right. -/
def Cell.peelArgs : List Cell → Peeled (List Cell)
  | [] => ⟨[], .ok []⟩
  | ⟨vs, t⟩ :: cells =>
    let rest := Cell.peelArgs cells
    match vs.front? with
    | some v => ⟨.var v :: rest.kept, rest.frontier.map (⟨vs, t⟩ :: ·)⟩
    | none =>
      let peeled := Multiterm.peelOption t
      match peeled.frontier with
      | .error e => ⟨⟨vs, peeled.kept⟩ :: cells, .error e⟩
      | .ok moved => ⟨⟨vs, peeled.kept⟩ :: rest.kept, rest.frontier.map (moved ++ ·)⟩
termination_by structural cells => cells

end

@[simp] theorem Multiterm.peel_mk (f : Symbol) (args : List Cell) :
    Multiterm.peel ⟨f, args⟩ =
      ⟨⟨f, (Cell.peelArgs args).kept⟩, (Cell.peelArgs args).frontier⟩ := rfl

@[simp] theorem Cell.peelArgs_nil : Cell.peelArgs [] = ⟨[], .ok []⟩ := rfl

/-- A cell with variables moves out and leaves its first variable. -/
theorem Cell.peelArgs_cons_of_front {c : Cell} {v : Var} (h : c.vars.front? = some v)
    (cells : List Cell) :
    Cell.peelArgs (c :: cells) =
      ⟨.var v :: (Cell.peelArgs cells).kept, (Cell.peelArgs cells).frontier.map (c :: ·)⟩ := by
  cases c
  simp only [Cell.peelArgs]
  rw [h]

end Multiequation
