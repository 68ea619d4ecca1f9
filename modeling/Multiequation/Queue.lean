import Multiequation.Failure

/-!
# First-in, first-out queues

The elements of a queue in the order in which they leave it. One queue can be spliced behind another,
which leaves the spliced queue empty.
-/

namespace Multiequation

/-- A queue; its front is the head of the list. -/
structure Queue (α : Type) where
  toList : List α
  deriving DecidableEq

namespace Queue

variable {α : Type}

/-- The queue without elements. -/
def empty : Queue α := ⟨[]⟩

instance : Inhabited (Queue α) := ⟨empty⟩

/-- The queue of one element. -/
def singleton (a : α) : Queue α := ⟨[a]⟩

/-- Puts an element behind all others. -/
def enqueue (q : Queue α) (a : α) : Queue α := ⟨q.toList ++ [a]⟩

/-- The element that leaves next. -/
def front? (q : Queue α) : Option α := q.toList.head?

/-- Takes the element that leaves next. -/
def dequeue (q : Queue α) : Except Failure (α × Queue α) :=
  match q.toList with
  | [] => .error .emptyQueue
  | a :: rest => .ok (a, ⟨rest⟩)

/-- Whether the queue has no element. -/
def isEmpty (q : Queue α) : Bool := q.toList.isEmpty

/-- The number of elements. -/
def length (q : Queue α) : Nat := q.toList.length

/-- The elements of the first queue, then those of the second. -/
def append (q r : Queue α) : Queue α := ⟨q.toList ++ r.toList⟩

instance : Append (Queue α) := ⟨append⟩

/-- Moves all elements of `source` behind those of `q`; the second result is what is left of it. -/
def splice (q source : Queue α) : Queue α × Queue α := (q ++ source, empty)

@[simp] theorem toList_empty : (empty : Queue α).toList = [] := rfl

@[simp] theorem toList_singleton (a : α) : (singleton a).toList = [a] := rfl

@[simp] theorem toList_enqueue (q : Queue α) (a : α) : (q.enqueue a).toList = q.toList ++ [a] := rfl

@[simp] theorem toList_append (q r : Queue α) : (q ++ r).toList = q.toList ++ r.toList := rfl

@[ext] theorem ext_toList {q r : Queue α} (h : q.toList = r.toList) : q = r := by
  cases q; cases r; cases h; rfl

end Queue

end Multiequation
