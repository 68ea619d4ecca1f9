import Multiequation.Multiterm

/-!
# Partitions of the variables into classes

A class that is absorbed by another leaves a forward link to it, so the number of a class stays good
for ever: resolving it follows the links to a live class. Finding a class does the same and, on its
way, points every link it passed straight at the result.

The occurrences that are counted for a class are cells in memory, so their number is within a machine
word whatever the system of equations. A count may also be set, to any word, and a sum of such counts
can be more than a word holds. The addition is unchecked and then wraps around. So a partition says
what its counts are computed in: machine words, or numbers without a bound for what is made of a system
of equations alone. The two agree wherever a word has room.
-/

namespace Multiequation

/-! ### Counts -/

/-- What counts are computed in. -/
inductive Arithmetic
  | unbounded
  | word
  deriving DecidableEq

namespace Arithmetic

/-- The sum of two counts; a word wraps around at the top. -/
def add : Arithmetic → Nat → Nat → Nat
  | unbounded, a, b => a + b
  | word, a, b => (a + b) % UInt64.size

/-- One less; a word wraps around at zero. -/
def pred : Arithmetic → Nat → Nat
  | unbounded, n => n - 1
  | word, n => (n + (UInt64.size - 1)) % UInt64.size

theorem add_le (k : Arithmetic) (a b : Nat) : k.add a b ≤ a + b := by
  cases k with
  | unbounded => exact Nat.le_refl _
  | word => exact Nat.mod_le _ _

/-- A sum that fits into a word is exact in both. -/
theorem add_of_lt (k : Arithmetic) {a b : Nat} (h : a + b < UInt64.size) : k.add a b = a + b := by
  cases k with
  | unbounded => rfl
  | word => exact Nat.mod_eq_of_lt h

/-- Above zero the predecessor is exact in both. -/
theorem pred_of_pos (k : Arithmetic) {n : Nat} (hn : 0 < n) (h : n < UInt64.size) :
    k.pred n = n - 1 := by
  cases k with
  | unbounded => rfl
  | word =>
    have hsum : n + (UInt64.size - 1) = n - 1 + UInt64.size := by omega
    rw [pred, hsum, Nat.add_mod_right, Nat.mod_eq_of_lt (by omega)]

end Arithmetic

/-! ### Classes and their records -/

/-- Variables claimed equal, and at most one multiterm claimed equal to them. -/
structure Class where
  members : Queue Var
  memberCount : Nat
  /-- How many occurrences of the members still have to be dealt with. -/
  pending : Nat
  term : Option Multiterm
  deriving DecidableEq

instance : Inhabited Class := ⟨⟨.empty, 0, 0, none⟩⟩

/-- What is stored under the number of a class: its contents, and the link to the class that absorbed
it, if one did. -/
structure Record where
  contents : Class
  forward : Option ClassId
  deriving DecidableEq

instance : Inhabited Record := ⟨⟨default, none⟩⟩

/-- The record of a class that has not been absorbed. -/
def Record.live (cls : Class) : Record := ⟨cls, none⟩

/-- The record of a class that left everything it had to another one. -/
def Record.absorbed (into : ClassId) : Record := ⟨default, some into⟩

/-- The records of all classes, and for each variable a class that once owned it. -/
structure Partition where
  owners : Array ClassId
  records : Array Record
  arithmetic : Arithmetic
  deriving DecidableEq

/-- Work on a partition; a failure leaves the partition as far as the work had got. -/
abbrev PartitionM := EStateM Failure Partition

namespace Partition

/-- The partition without variables that counts in the given arithmetic. -/
def start (arithmetic : Arithmetic) : Partition := ⟨#[], #[], arithmetic⟩

/-- The partition without variables, as it is made: it counts in words. -/
def empty : Partition := start .word

instance : Inhabited Partition := ⟨empty⟩

/-- Does the work on the partition of a larger state. -/
def lift {σ α : Type} (part : σ → Partition) (put : σ → Partition → σ) (x : PartitionM α) :
    EStateM Failure σ α := fun s =>
  match x (part s) with
  | .ok a p => .ok a (put s p)
  | .error e p => .error e (put s p)

/-! ### Variables -/

/-- The number of variables. -/
def varCount (p : Partition) : Nat := p.owners.size

/-- All variables in the order of their creation. -/
def vars (p : Partition) : List Var := (List.range p.varCount).map Var.mk

/-- Creates a variable and the class that it forms alone. -/
def freshVar (p : Partition) : Var × Partition :=
  let v : Var := ⟨p.owners.size⟩
  (v, { p with
    owners := p.owners.push ⟨p.records.size⟩
    records := p.records.push (.live ⟨.singleton v, 1, 0, none⟩) })

/-! ### Forward links -/

/-- The class with the given number, if there is one. -/
def classId? (p : Partition) (index : Nat) : Option ClassId :=
  if index < p.records.size then some ⟨index⟩ else none

/-- The class that absorbed the class `id`. -/
def forward? (p : Partition) (id : ClassId) : Option ClassId :=
  p.records[id.index]?.bind Record.forward

/-- The contents of the record of the class `id`. -/
def contents? (p : Partition) (id : ClassId) : Option Class :=
  p.records[id.index]?.map Record.contents

/-- Whether `id` itself is a class that has not been absorbed. -/
def isLive (p : Partition) (id : ClassId) : Bool :=
  (p.forward? id).isNone

/-- Follows at most `n` forward links. -/
def resolveWithin (p : Partition) : Nat → ClassId → ClassId
  | 0, id => id
  | n + 1, id =>
    match p.forward? id with
    | some next => p.resolveWithin n next
    | none => id

/-- The live class behind `id`. Links do not cycle, so there are fewer of them than records. -/
def resolve (p : Partition) (id : ClassId) : ClassId :=
  p.resolveWithin p.records.size id

/-- Stores a forward link from `id` to `into`. -/
def redirect (p : Partition) (id into : ClassId) : Partition :=
  { p with records := p.records.modify id.index fun record => { record with forward := some into } }

/-- Points the next at most `n` links that lead from `id` to `root` straight at `root`. -/
def compressWithin (root : ClassId) : Nat → ClassId → Partition → Partition
  | 0, _, p => p
  | n + 1, id, p =>
    match p.forward? id with
    | none => p
    | some next =>
      let p := p.redirect id root
      if next = root then p else compressWithin root n next p

/-- The live class behind `id`; the links from `id` to it are compressed. -/
def find (p : Partition) (id : ClassId) : ClassId × Partition :=
  let root := p.resolve id
  (root, compressWithin root p.records.size id p)

@[simp] theorem size_records_redirect (p : Partition) (id into : ClassId) :
    (p.redirect id into).records.size = p.records.size := by
  simp [redirect]

@[simp] theorem owners_redirect (p : Partition) (id into : ClassId) :
    (p.redirect id into).owners = p.owners := rfl

/-- A stored link leads where it was pointed, and all other links stay. -/
theorem forward?_redirect (p : Partition) (id into j : ClassId) :
    (p.redirect id into).forward? j =
      if id = j ∧ id.index < p.records.size then some into else p.forward? j := by
  obtain ⟨i⟩ := id
  obtain ⟨j⟩ := j
  simp only [forward?, redirect, Array.getElem?_modify, ClassId.mk.injEq]
  by_cases hij : i = j
  · subst hij
    by_cases hi : i < p.records.size
    · simp [hi]
    · simp [hi]
  · simp [hij]

/-- No contents change when a link is stored. -/
theorem contents?_redirect (p : Partition) (id into j : ClassId) :
    (p.redirect id into).contents? j = p.contents? j := by
  simp only [contents?, redirect, Array.getElem?_modify]
  split
  · cases p.records[j.index]? <;> rfl
  · rfl

@[simp] theorem owners_compressWithin (root : ClassId) (n : Nat) (id : ClassId) (p : Partition) :
    (compressWithin root n id p).owners = p.owners := by
  induction n generalizing id p with
  | zero => rfl
  | succ n ih =>
    unfold compressWithin
    split
    · rfl
    · dsimp only
      split <;> simp [ih]

/-! ### Classes -/

/-- The contents of the live class behind `id`. -/
def classAt (p : Partition) (id : ClassId) : Class :=
  (p.contents? (p.resolve id)).getD default

/-- The classes that have not been absorbed, in the order of their creation. -/
def liveClasses (p : Partition) : List ClassId :=
  ((List.range p.records.size).map ClassId.mk).filter p.isLive

/-- The live class that owns a variable. -/
def owner? (p : Partition) (v : Var) : Option ClassId :=
  p.owners[v.index]?.map p.resolve

/-- The live class that owns a variable; its links are compressed and it is stored as the owner. -/
def findOwner (v : Var) : PartitionM ClassId := do
  match (← get).owners[v.index]? with
  | none => throw (.unknownVariable v)
  | some id =>
    let root ← modifyGet (·.find id)
    modify fun p => { p with owners := p.owners.setIfInBounds v.index root }
    return root

/-- Changes the contents of the live class `id`. -/
def updateLive (p : Partition) (id : ClassId) (f : Class → Class) : Partition :=
  { p with
    records := p.records.modify id.index fun record =>
      { record with contents := f record.contents } }

/-- Takes the record of the class `id` and leaves an empty one in its place. -/
def vacate (p : Partition) (id : ClassId) : Partition :=
  { p with records := p.records.setIfInBounds id.index default }

/-- Changes the contents of the live class behind `id`. -/
def update (p : Partition) (id : ClassId) (f : Class → Class) : Partition :=
  let (root, p) := p.find id
  p.updateLive root f

/-! ### Terms -/

/-- Takes the multiterm out of the class behind `id`. -/
def takeTerm (p : Partition) (id : ClassId) : Option Multiterm × Partition :=
  ((p.classAt id).term, p.update id fun cls => { cls with term := none })

/-- Gives the class behind `id` a multiterm or none. -/
def setTerm (p : Partition) (id : ClassId) (term : Option Multiterm) : Partition :=
  p.update id fun cls => { cls with term }

/-! ### Pending counts -/

/-- Gives the class behind `id` a pending count. -/
def setPending (p : Partition) (id : ClassId) (pending : Nat) : Partition :=
  p.update id fun cls => { cls with pending }

/-- Lowers the pending count of the class behind `id` by one and returns it. -/
def payOff (id : ClassId) : PartitionM Nat := do
  let root ← modifyGet (·.find id)
  match ((← get).classAt root).pending with
  | 0 => throw (.pendingUnderflow root)
  | n + 1 =>
    modify (·.setPending root n)
    return n

/-- The sum of the pending counts of all live classes. -/
def debt (p : Partition) : Nat :=
  p.liveClasses.foldr (fun id n => (p.classAt id).pending + n) 0

/-- The occurrences of variables in the multiterms of all live classes. -/
def occurrences (p : Partition) : List Var :=
  p.liveClasses.flatMap fun id => Multiterm.varsOfOption (p.classAt id).term

/-- Counts one more occurrence of a variable for its class. -/
def countOccurrence (v : Var) : PartitionM Unit := do
  let owner ← findOwner v
  modify fun p =>
    p.update owner fun cls => { cls with pending := p.arithmetic.add cls.pending 1 }

/-- Makes every pending count the number of occurrences of the class's members. -/
def countOccurrences : PartitionM Unit := do
  let occurrences := (← get).occurrences
  modify fun p => p.liveClasses.foldl (fun p id => p.setPending id 0) p
  occurrences.forM countOccurrence

end Partition

end Multiequation
