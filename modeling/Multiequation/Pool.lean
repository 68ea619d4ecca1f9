import Multiequation.Journal
import Multiequation.Multiterm.Frontier

/-!
# The pool of classes to be discharged

A class is ready when none of its members occurs in a multiterm that is still to be peeled, that is,
when its pending count is zero. Discharging takes the ready classes one by one. The multiterm of a
class is peeled, and each cell of its frontier is folded back into the pool: its variables become one
class, its multiterm is committed to that class, and every occurrence that was dealt with is paid off,
which may make the class ready.
-/

namespace Multiequation

/-- The state of a run. -/
structure Pool where
  partition : Partition
  /-- The number of classes neither discharged nor absorbed. -/
  remaining : Nat
  ready : Queue ClassId
  /-- The classes that were not ready when the run began. -/
  pending : List ClassId
  journal : Journal

/-- Work on a pool; a failure leaves the pool as far as the work had got. -/
abbrev PoolM := EStateM Failure Pool

namespace Pool

/-- The pool that begins with the classes and pending counts of a partition. -/
def ofPartition (partition : Partition) (journal : Journal) : Pool :=
  let isReady := fun id => (partition.classAt id).pending == 0
  let live := partition.liveClasses
  { partition
    remaining := live.length
    ready := ⟨live.filter isReady⟩
    pending := live.filter (!isReady ·)
    journal }

/-- The classes in the ready queue, in order. -/
def readyClasses (pool : Pool) : List ClassId :=
  pool.ready.toList.map pool.partition.resolve

/-- The classes that still wait for their pending count to reach zero, each once. -/
def pendingClasses (pool : Pool) : List ClassId :=
  ((pool.pending.map pool.partition.resolve).filter fun id =>
    (pool.partition.classAt id).pending != 0).eraseDups

/-- Makes an entry in the journal. -/
def record (e : Event) : PoolM Unit :=
  modify fun pool => { pool with journal := pool.journal.push e }

/-- Works on the partition of the pool. -/
def onPartition {α : Type} (x : PartitionM α) : PoolM α :=
  Partition.lift Pool.partition (fun pool partition => { pool with partition }) x

/-- The live class behind `id`. -/
def find (id : ClassId) : PoolM ClassId :=
  onPartition (modifyGet (·.find id))

/-- Takes the first class of the ready queue. -/
def selectReady : PoolM ClassId := do
  let pool ← get
  match pool.ready.dequeue with
  | .error _ => throw (.noReadyClasses pool.remaining)
  | .ok (id, ready) =>
    let remaining := pool.remaining - 1
    set { pool with ready, remaining }
    let id ← find id
    record (.selected id remaining)
    return id

/-- Makes one class of the classes behind `a` and `b`; two classes count as one from then on. The number
that remains is lowered unchecked: where both had been discharged already, a word may wrap around. -/
def mergeClasses (a b : ClassId) : PoolM ClassId := do
  let a ← find a
  let b ← find b
  ((← get).partition.mergeEvent? a b).forM record
  let survivor ← onPartition (Partition.merge a b)
  if a ≠ b then
    modify fun pool =>
      { pool with remaining := pool.partition.arithmetic.pred pool.remaining }
  return survivor

/-! ### Folding a frontier back -/

/-- Pays off one occurrence of a variable and returns the class that owns it. -/
def payOffVar (v : Var) : PoolM ClassId := onPartition do
  let owner ← Partition.findOwner v
  let _ ← Partition.payOff owner
  return owner

/-- Pays off one occurrence of a variable and merges the class that owns it into `anchor`. -/
def join (anchor : ClassId) (v : Var) : PoolM ClassId := do
  let owner ← payOffVar v
  if owner = anchor then return anchor else mergeClasses anchor owner

/-- Folds one cell back into the pool. -/
def settle (cell : Cell) : PoolM Unit := do
  let (first, rest) ← MonadExcept.ofExcept cell.vars.dequeue
  let anchor ← payOffVar first
  let anchor ← rest.toList.foldlM join anchor
  cell.term.forM fun term => onPartition (Partition.commit anchor term)
  if ((← get).partition.classAt anchor).pending = 0 then
    record (.ready anchor)
    modify fun pool => { pool with ready := pool.ready.enqueue anchor }

/-- The entry that shows the state of the pool. -/
def snapshot (pool : Pool) : Event :=
  .snapshot pool.remaining (pool.partition.liveClasses.map pool.partition.summary)

/-- Folds the cells of a frontier back into the pool, the last one first. -/
def compact (frontier : List Cell) : PoolM Unit := do
  frontier.reverse.forM settle
  record (← get).snapshot

/-! ### Discharging -/

/-- Peels the multiterm of a class and folds the frontier back into the pool. -/
def peelClass (id : ClassId) : PoolM Unit := do
  match ← onPartition (modifyGet (·.takeTerm id)) with
  | none => return
  | some term =>
    let peeled := term.peel
    let frontier ← MonadExcept.ofExcept peeled.frontier
    record (.peeled id frontier.length)
    onPartition (Partition.commit id peeled.kept)
    compact frontier

/-- Discharges the next ready class and returns it. -/
def dischargeNext : PoolM ClassId := do
  let id ← selectReady
  peelClass id
  find id

/-- Discharges at most `n` classes and returns them in order. -/
def dischargeUpTo : Nat → PoolM (List ClassId)
  | 0 => return []
  | n + 1 => do
    if (← get).remaining = 0 then
      return []
    let id ← dischargeNext
    return id :: (← dischargeUpTo n)

/-- The entries of the ready queue and the occurrences that are still to be paid off. A class enters the
queue when an occurrence is paid off, so every discharge lowers this number. -/
def work (pool : Pool) : Nat := pool.ready.length + pool.partition.debt

/-- Discharges classes until none remains and returns them in order. -/
def discharge : PoolM (List ClassId) := do
  dischargeUpTo ((← get).work + 1)

end Pool

/-- The discharged classes in order. The multiterms refer to other classes by single variables. -/
structure SolvedForm where
  partition : Partition
  order : List ClassId

/-- Discharges all classes of a pool. -/
def Pool.solvedForm (pool : Pool) : Except Failure SolvedForm :=
  match Pool.discharge pool with
  | .ok order pool => .ok ⟨pool.partition, order⟩
  | .error e _ => .error e

namespace SolvedForm

/-- The number of discharged classes. -/
def size (form : SolvedForm) : Nat := form.order.length

/-- Whether there was no class to discharge. -/
def isEmpty (form : SolvedForm) : Bool := form.order.isEmpty

/-- The discharged classes and their contents, in order. -/
def classes (form : SolvedForm) : List (ClassId × Class) :=
  form.order.map fun id => (id, form.partition.classAt id)

end SolvedForm

end Multiequation
